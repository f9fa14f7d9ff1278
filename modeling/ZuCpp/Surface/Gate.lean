import ZuCpp.Surface.Key
import ZuCpp.Lib.Diff

/-!
# The gate: two surfaces, and what moved between them

`surface` files the lines and stops when two of them have one key, `compare` answers what
is gone, what arrived and what changed, and the gate passes when nothing did.

Of two surfaces without two lines of one key, `compare` tells the exact difference
(`compare_exact`).  The published lines are checked for that and the lines of the file are
not, so **the gate can be trusted exactly when no line of the file stands behind another
of its key, or something else moved as well** (`gate_right_iff`).
-/

namespace ZuCpp.Surface

open Lib

/-! ### Filing the lines -/

def sorted (l : List Text) : List Text := l.insertionSort (· ≤ ·)

def sortedPairs (l : List (Text × Text)) : List (Text × Text) :=
  l.insertionSort fun p q => p.1 < q.1 ∨ p.1 = q.1 ∧ p.2 ≤ q.2

def setdefault (seen : Dict Text Text) (k v : Text) : Text × Dict Text Text :=
  match seen.get k with
  | some u => (u, seen)
  | none => (v, seen.set k v)

inductive Stop
  /-- nothing at all was read -/
  | nothing
  /-- two published names are filed under the same key -/
  | clash (one other : Text)
  deriving DecidableEq, Repr

def checkKeys (lines : List Text) (seen : Dict Text Text) : Except Stop Unit :=
  match lines with
  | [] => .ok ()
  | line :: lines =>
    let (clash, seen) := setdefault seen (key line) line
    if clash ≠ line then .error (.clash clash line) else checkKeys lines seen

/-- What is left of `surface` once the XML is read: `found` is what was read out of it, and
`formatters` what was read out of the header. -/
def surface (found formatters : List (Text × Text)) : Except Stop (List Text) :=
  if found = [] then .error .nothing
  else do
    let lines := (sortedPairs (found ++ formatters).dedup).map Prod.snd
    checkKeys lines ⟨[], List.nodup_nil⟩
    return lines

def compare (was now : List Text) : Diff Text :=
  let d := diff key was now
  ⟨sorted d.gone, sorted d.arrived, sortedPairs d.changed⟩

def isBreak (c : Char) : Bool :=
  let n := c.toNat
  (10 ≤ n ∧ n ≤ 13) ∨ (28 ≤ n ∧ n ≤ 30) ∨ n = 133 ∨ n = 8232 ∨ n = 8233

def splitlinesFrom (line : Text) : Text → List Text
  | [] => if line = [] then [] else [line]
  | '\r' :: '\n' :: cs => line :: splitlinesFrom [] cs
  | c :: cs => if isBreak c then line :: splitlinesFrom [] cs else splitlinesFrom (line ++ [c]) cs

def splitlines (s : Text) : List Text := splitlinesFrom [] s

/-- What `main` exits with, without `--update`.  `golden` is what is in the file, if there
is one. -/
def main (found formatters : List (Text × Text)) (golden : Option Text) : Nat :=
  match surface found formatters with
  | .error _ => 1
  | .ok now =>
    match golden with
    | none => 1
    | some content =>
      let d := compare (splitlines content) now
      if ¬ (d.gone ≠ [] ∨ d.arrived ≠ [] ∨ d.changed ≠ []) then 0 else 1

/-! ### What `surface` promises -/

/-- No two lines have one key. -/
def Distinct (l : List Text) : Prop := ∀ a ∈ l, ∀ b ∈ l, key a = key b → a = b

theorem setdefault_fst (seen : Dict Text Text) (k v : Text) :
    (setdefault seen k v).1 = (seen.get k).getD v := by
  rw [setdefault]
  cases seen.get k <;> rfl

theorem setdefault_get (seen : Dict Text Text) (k v j : Text) :
    (setdefault seen k v).2.get j = if j = k then some ((seen.get k).getD v) else seen.get j := by
  rw [setdefault]
  cases h : seen.get k with
  | none => exact Dict.get_set seen k v j
  | some u =>
    dsimp only
    split
    · rename_i hj
      rw [hj, h]
      rfl
    · rfl

/-- A line is filed where nothing else is. -/
def Fits (seen : Dict Text Text) (line : Text) : Prop :=
  ∀ u, seen.get (key line) = some u → u = line

theorem setdefault_eq_iff {seen : Dict Text Text} {line : Text} :
    (setdefault seen (key line) line).1 = line ↔ Fits seen line := by
  rw [setdefault_fst, Fits]
  cases seen.get (key line) with
  | none => exact ⟨fun _ => nofun, fun _ => rfl⟩
  | some u => exact ⟨fun h v hv => Option.some.inj hv ▸ h, fun h => h u rfl⟩

/-- Behind a line that fits, a line fits that did before and does not clash with it. -/
theorem fits_setdefault {seen : Dict Text Text} {line : Text} (h : Fits seen line) (l : Text) :
    Fits (setdefault seen (key line) line).2 l ↔ Fits seen l ∧ (key l = key line → l = line) := by
  have hget : (setdefault seen (key line) line).2.get (key l)
      = if key l = key line then some line else seen.get (key l) := by
    rw [setdefault_get, ← setdefault_fst, setdefault_eq_iff.mpr h]
  rw [Fits, hget]
  split
  · rename_i hk
    constructor
    · intro hl
      obtain rfl : line = l := hl line rfl
      exact ⟨h, fun _ => rfl⟩
    · rintro ⟨-, hl⟩ u hu
      rw [hl hk, Option.some.inj hu]
  · rename_i hk
    exact ⟨fun hl => ⟨hl, fun hk' => absurd hk' hk⟩, fun hl => hl.1⟩

theorem distinct_cons {line : Text} {lines : List Text} : Distinct (line :: lines) ↔
    Distinct lines ∧ ∀ l ∈ lines, key l = key line → l = line := by
  constructor
  · intro h
    refine ⟨?_, fun l hl => h l (List.mem_cons_of_mem _ hl) line List.mem_cons_self⟩
    exact fun a ha b hb => h a (List.mem_cons_of_mem _ ha) b (List.mem_cons_of_mem _ hb)
  · rintro ⟨hlines, hline⟩ a ha b hb hab
    rcases List.mem_cons.mp ha with rfl | ha'
    · rcases List.mem_cons.mp hb with rfl | hb'
      · rfl
      · exact (hline b hb' hab.symm).symm
    · rcases List.mem_cons.mp hb with rfl | hb'
      · exact hline a ha' hab
      · exact hlines a ha' b hb' hab

/-- The loop gets through exactly when no line clashes with another or with one that is
filed already. -/
theorem checkKeys_ok_iff {lines : List Text} {seen : Dict Text Text} :
    checkKeys lines seen = .ok () ↔ Distinct lines ∧ ∀ line ∈ lines, Fits seen line := by
  induction lines generalizing seen with
  | nil => exact ⟨fun _ => ⟨nofun, nofun⟩, fun _ => rfl⟩
  | cons line lines ih =>
    rw [checkKeys]
    dsimp only
    by_cases hline : Fits seen line
    · -- from here on the line is filed under its key
      rw [if_neg (not_not.mpr (setdefault_eq_iff.mpr hline)), ih, distinct_cons]
      simp only [fits_setdefault hline, List.forall_mem_cons]
      constructor
      · rintro ⟨hlines, hfit⟩
        exact ⟨⟨hlines, fun l hl => (hfit l hl).2⟩, hline, fun l hl => (hfit l hl).1⟩
      · rintro ⟨⟨hlines, hother⟩, -, hfit⟩
        exact ⟨hlines, fun l hl => ⟨hfit l hl, hother l hl⟩⟩
    · rw [if_pos fun h => hline (setdefault_eq_iff.mp h)]
      refine iff_of_false nofun ?_
      rintro ⟨-, hseen⟩
      exact hline (hseen line List.mem_cons_self)

theorem surface_ok_iff {found formatters : List (Text × Text)} {now : List Text} :
    surface found formatters = .ok now ↔ found ≠ [] ∧
      now = (sortedPairs (found ++ formatters).dedup).map Prod.snd ∧ Distinct now := by
  rw [surface]
  by_cases hfound : found = []
  · rw [if_pos hfound]
    exact iff_of_false nofun fun h => h.1 hfound
  · rw [if_neg hfound]
    dsimp only
    set lines := (sortedPairs (found ++ formatters).dedup).map Prod.snd
    have hcheck : checkKeys lines ⟨[], List.nodup_nil⟩ = .ok () ↔ _ := checkKeys_ok_iff
    have hempty : ∀ line ∈ lines, Fits ⟨[], List.nodup_nil⟩ line := fun line _ u hu => nomatch hu
    cases h : checkKeys lines ⟨[], List.nodup_nil⟩ with
    | error stop =>
      refine iff_of_false nofun ?_
      rintro ⟨-, rfl, hdistinct⟩
      rw [hcheck.mpr ⟨hdistinct, hempty⟩] at h
      cases h
    | ok u =>
      constructor
      · intro hok
        obtain rfl : lines = now := Except.ok.inj hok
        exact ⟨hfound, rfl, (hcheck.mp h).1⟩
      · rintro ⟨-, rfl, -⟩
        rfl

/-! ### What `compare` answers -/

theorem sorted_perm (l : List Text) : (sorted l).Perm l := List.perm_insertionSort _ l

theorem sortedPairs_perm (l : List (Text × Text)) : (sortedPairs l).Perm l :=
  List.perm_insertionSort _ l

/-- `d` is the exact difference of the lines that were and the lines that are now, and
`back` is the same difference the other way about. -/
structure Exact (was now : List Text) (d back : Diff Text) : Prop where
  lost : ∀ line, (line ∈ d.gone ∨ ∃ new, (line, new) ∈ d.changed) ↔ line ∈ was ∧ line ∉ now
  gained : ∀ line, (line ∈ d.arrived ∨ ∃ old, (old, line) ∈ d.changed) ↔ line ∈ now ∧ line ∉ was
  alike : ∀ old new, (old, new) ∈ d.changed → key old = key new
  /-- no key is in two answers, and none in one twice -/
  once : (d.gone.map key ++ d.arrived.map key ++ d.changed.map fun p => key p.1).Nodup
  /-- putting the difference into effect makes the one list of the other -/
  patched : (d.patch was).Perm now
  backGone : back.gone.Perm d.arrived
  backArrived : back.arrived.Perm d.gone
  backChanged : back.changed.Perm (d.changed.map Prod.swap)

/-- **`compare` tells the exact difference** of two lists of lines in which no two have one
key. -/
theorem compare_exact {was now : List Text} (hwas : (was.map key).Nodup)
    (hnow : (now.map key).Nodup) : Exact was now (compare was now) (compare now was) := by
  set d := compare was now
  have hgone : d.gone.Perm (diff key was now).gone := sorted_perm _
  have harrived : d.arrived.Perm (diff key was now).arrived := sorted_perm _
  have hchanged : d.changed.Perm (diff key was now).changed := sortedPairs_perm _
  have hswap : (diff key now was).changed.Perm ((diff key was now).changed.map Prod.swap) :=
    diff_swap.2.2
  refine ⟨?_, ?_, ?_, ?_, ?_, ?_, ?_, ?_⟩
  · intro line
    simp only [hgone.mem_iff, hchanged.mem_iff]
    exact gone_or_changed hwas hnow
  · intro line
    simp only [harrived.mem_iff, hchanged.mem_iff]
    exact arrived_or_changed hwas hnow
  · intro old new h
    exact (mem_changed.mp (hchanged.mem_iff.mp h)).1
  · have hreported : ((diff key was now).gone.map key ++ _ ++ _).Nodup := nodup_reported
    refine (List.Perm.nodup_iff ?_).mpr hreported
    exact ((hgone.map key).append (harrived.map key)).append (hchanged.map _)
  · exact (Diff.patch_congr hgone harrived hchanged was).trans (patch_perm hwas hnow)
  · exact (sorted_perm _).trans harrived.symm
  · exact (sorted_perm _).trans hgone.symm
  · exact (sortedPairs_perm _).trans (hswap.trans (hchanged.map Prod.swap).symm)

def linesThen : List Text :=
  ["class zu::A".toList, "func zu::A::f() -> void".toList, "func zu::A::g() const".toList]

def linesNow : List Text :=
  ["class zu::A".toList, "func zu::A::f() noexcept -> void".toList, "func zu::A::g()".toList]

theorem compare_exact_linesThen :
    Exact linesThen linesNow (compare linesThen linesNow) (compare linesNow linesThen) :=
  compare_exact (by decide) (by decide)

example : compare linesThen linesNow =
    ⟨["func zu::A::g() const".toList], ["func zu::A::g()".toList],
      [("func zu::A::f() -> void".toList, "func zu::A::f() noexcept -> void".toList)]⟩ := by
  decide

/-! ### When the gate can be trusted -/

theorem main_eq_zero_iff {found formatters : List (Text × Text)} {now : List Text}
    (h : surface found formatters = .ok now) (content : Text) :
    main found formatters (some content) = 0 ↔
      ∀ k, lastOf key (splitlines content) k = lastOf key now k := by
  rw [main, h]
  dsimp only
  rw [← diff_nil_iff]
  have hgone := sorted_perm (diff key (splitlines content) now).gone
  have harrived := sorted_perm (diff key (splitlines content) now).arrived
  have hchanged := sortedPairs_perm (diff key (splitlines content) now).changed
  have hnil : ∀ {α : Type} {a b : List α}, a.Perm b → (a = [] ↔ b = []) := by
    intro α a b hab
    rw [← List.length_eq_zero_iff, hab.length_eq, List.length_eq_zero_iff]
  rw [ite_eq_left_iff, compare]
  simp only [ne_eq, hnil hgone, hnil harrived, hnil hchanged, Nat.one_ne_zero, imp_false, not_not]
  rw [not_or, not_or, not_not, not_not, not_not]

/-- A line of the file that another of its key stands behind, and the surface. -/
def shadowedFile : Text := "func f() -> int\nfunc f() -> void\n".toList

def shadowedSurface : List (Text × Text) := [("f".toList, "func f() -> void".toList)]

/-- The published lines are the last lines of their keys in the file. -/
def LastLines (was now : List Text) : Prop :=
  ∀ line, line ∈ now ↔ lastOf key was (key line) = some line

theorem lastOf_eq_iff {was now : List Text} (hnow : Distinct now) :
    (∀ k, lastOf key was k = lastOf key now k) ↔ LastLines was now := by
  constructor
  · intro h line
    rw [h]
    exact ⟨lastOf_of_distinct key hnow, fun hl => (lastOf_some key hl).1⟩
  · intro h k
    cases hb : lastOf key now k with
    | some b =>
      obtain ⟨hmem, rfl⟩ := lastOf_some key hb
      exact (h b).mp hmem
    | none =>
      cases ha : lastOf key was k with
      | none => rfl
      | some a =>
        obtain ⟨-, rfl⟩ := lastOf_some key ha
        exact absurd rfl ((lastOf_eq_none key).mp hb a ((h a).mpr ha))

/-- **When the gate can be trusted.**  It passes exactly when the file has the published
lines and no others, if and only if no two different lines of the file have one key, or
the published lines are not the last ones of their keys in the file anyway. -/
theorem gate_right_iff {found formatters : List (Text × Text)} {now : List Text}
    (h : surface found formatters = .ok now) (content : Text) :
    (main found formatters (some content) = 0 ↔ ∀ line, line ∈ splitlines content ↔ line ∈ now) ↔
      Distinct (splitlines content) ∨ ¬ LastLines (splitlines content) now := by
  have hnow : Distinct now := (surface_ok_iff.mp h).2.2
  set was := splitlines content
  rw [main_eq_zero_iff h, lastOf_eq_iff hnow]
  have hsame : (∀ line, line ∈ was ↔ line ∈ now) → Distinct was := fun hs a ha b hb =>
    hnow a ((hs a).mp ha) b ((hs b).mp hb)
  have hlast : Distinct was → (LastLines was now ↔ ∀ line, line ∈ was ↔ line ∈ now) := by
    intro hd
    refine forall_congr' fun line => ?_
    have hline : lastOf key was (key line) = some line ↔ line ∈ was :=
      ⟨fun hl => (lastOf_some key hl).1, lastOf_of_distinct key hd⟩
    rw [hline]
    exact ⟨Iff.symm, Iff.symm⟩
  constructor
  · intro hiff
    by_cases hl : LastLines was now
    · exact Or.inl (hsame (hiff.mp hl))
    · exact Or.inr hl
  · rintro (hd | hl)
    · exact hlast hd
    · refine ⟨fun hl' => absurd hl' hl, fun hs => (hlast (hsame hs)).mpr hs⟩

def movedFile : Text := "func f() -> int\nfunc g()\n".toList

theorem gate_right_movedFile :
    surface shadowedSurface [] = .ok ["func f() -> void".toList] ∧
    ((main shadowedSurface [] (some movedFile) = 0 ↔
        ∀ line, line ∈ splitlines movedFile ↔ line ∈ ["func f() -> void".toList]) ↔
      Distinct (splitlines movedFile) ∨
        ¬ LastLines (splitlines movedFile) ["func f() -> void".toList]) :=
  ⟨by decide, gate_right_iff (by decide) movedFile⟩

/-- **A line goes and nobody is told.**  The file has a line that is not published, and the
gate passes. -/
theorem gate_passes_shadowed :
    surface shadowedSurface [] = .ok ["func f() -> void".toList] ∧
    main shadowedSurface [] (some shadowedFile) = 0 ∧
    "func f() -> int".toList ∈ splitlines shadowedFile ∧
    "func f() -> int".toList ∉ ["func f() -> void".toList] := by
  decide

end ZuCpp.Surface
