import ZuCpp.Surface.Header

/-!
# The order of the lines, and where `surface` stops

`surface` sorts what it found, so neither the order of the pages nor how often one is listed
is in what it answers: **the surface depends on the set of the entries only**, and so does
the message it stops with (`publish_congr`).

It stops at the first line, in that order, whose key is the key of a line before it, and
names the two (`surface_clash_iff`).
-/

namespace ZuCpp.Surface

open Lib

/-! ### Sorting pairs -/

def PairLe (p q : Text × Text) : Prop := p.1 < q.1 ∨ p.1 = q.1 ∧ p.2 ≤ q.2

instance : DecidableRel PairLe := fun p q =>
  inferInstanceAs (Decidable (p.1 < q.1 ∨ p.1 = q.1 ∧ p.2 ≤ q.2))

instance : Std.Total PairLe where
  total p q := by
    rcases lt_trichotomy p.1 q.1 with h | h | h
    · exact Or.inl (Or.inl h)
    · exact (le_total p.2 q.2).imp (fun h2 => Or.inr ⟨h, h2⟩) fun h2 => Or.inr ⟨h.symm, h2⟩
    · exact Or.inr (Or.inl h)

instance : IsTrans (Text × Text) PairLe where
  trans p q r hpq hqr := by
    rcases hpq with hpq | ⟨hpq, hpq2⟩
    · rcases hqr with hqr | ⟨hqr, -⟩
      · exact Or.inl (hpq.trans hqr)
      · exact Or.inl (hqr ▸ hpq)
    · rcases hqr with hqr | ⟨hqr, hqr2⟩
      · exact Or.inl (hpq ▸ hqr)
      · exact Or.inr ⟨hpq.trans hqr, hpq2.trans hqr2⟩

theorem pairLe_antisymm {p q : Text × Text} (hpq : PairLe p q) (hqp : PairLe q p) : p = q := by
  rcases hpq with hpq | ⟨hpq, hpq2⟩
  · rcases hqp with hqp | ⟨hqp, -⟩
    · exact absurd hqp (lt_asymm hpq)
    · exact absurd hqp.symm hpq.ne
  · rcases hqp with hqp | ⟨-, hqp2⟩
    · exact absurd hpq.symm hqp.ne
    · exact Prod.ext hpq (le_antisymm hpq2 hqp2)

theorem sortedPairs_pairwise (l : List (Text × Text)) : (sortedPairs l).Pairwise PairLe :=
  List.pairwise_insertionSort PairLe l

/-- **Sorting forgets the order.** -/
theorem sortedPairs_congr {l l' : List (Text × Text)} (h : l.Perm l') :
    sortedPairs l = sortedPairs l' := by
  refine List.Perm.eq_of_pairwise (fun p q _ _ => pairLe_antisymm) (sortedPairs_pairwise l)
    (sortedPairs_pairwise l') ?_
  exact (sortedPairs_perm l).trans (h.trans (sortedPairs_perm l').symm)

theorem sortedPairs_dedup_congr {l l' : List (Text × Text)} (h : ∀ p, p ∈ l ↔ p ∈ l') :
    sortedPairs l.dedup = sortedPairs l'.dedup := by
  refine sortedPairs_congr ?_
  rw [List.perm_ext_iff_of_nodup (List.nodup_dedup l) (List.nodup_dedup l')]
  intro p
  rw [List.mem_dedup, List.mem_dedup, h]

theorem surface_congr {found found' formatters formatters' : List (Text × Text)}
    (hfound : ∀ p, p ∈ found ↔ p ∈ found') (hformatters : ∀ p, p ∈ formatters ↔ p ∈ formatters') :
    surface found formatters = surface found' formatters' := by
  have hnil : found = [] ↔ found' = [] := by
    simp only [List.eq_nil_iff_forall_not_mem, hfound]
  have hlines : sortedPairs (found ++ formatters).dedup
      = sortedPairs (found' ++ formatters').dedup := by
    refine sortedPairs_dedup_congr fun p => ?_
    rw [List.mem_append, List.mem_append, hfound, hformatters]
  rw [surface, surface, hlines]
  by_cases h : found = []
  · rw [if_pos h, if_pos (hnil.mp h)]
  · rw [if_neg h, if_neg fun h' => h (hnil.mpr h')]

/-- **The surface depends on the set of what is written only.**  Whatever the order in which
the pages are listed and the lines of the header stand, and however often each is there,
`surface` answers the same lines in the same order, or stops with the same message. -/
theorem publish_congr {W : WordChars} {xml xml' : Xml} {header header' : Text}
    (hxml : ∀ d, d ∈ xml.definitions ↔ d ∈ xml'.definitions)
    (hheader : ∀ l, l ∈ splitlines header ↔ l ∈ splitlines header') :
    publish W xml header = publish W xml' header' := by
  have hback : ∀ name, name ∈ undefined W header ↔ name ∈ undefined W header' := by
    intro name
    rw [undefined, undefined, List.mem_filterMap, List.mem_filterMap]
    simp only [hheader]
  have hmember : ∀ kind, memberEntries (undefined W header) kind
      = memberEntries (undefined W header') kind := by
    intro kind
    funext m
    rw [memberEntries, memberEntries]
    simp only [hback]
  have hdefinition : definitionEntries (undefined W header)
      = definitionEntries (undefined W header') := by
    funext d
    rw [definitionEntries, definitionEntries]
    simp only [hmember]
  refine surface_congr (fun p => ?_) fun p => ?_
  · rw [Xml.found, Xml.found, List.mem_flatMap, List.mem_flatMap, hdefinition]
    simp only [hxml]
  · rw [mem_formatters, mem_formatters]
    simp only [hheader]

/-- The pages of the format header the other way about and one of them twice, and its lines
the other way about. -/
theorem publish_congr_formatHeader : publish asciiWords
      (xmlOf [("zu_8hpp", macros ["ZU_FORMATTER", "ZU_HAS_FORMAT"]), ("watch", watch.xml),
        ("zu_8hpp", macros ["ZU_FORMATTER", "ZU_HAS_FORMAT"])]) formatHeader =
    publish asciiWords
      (xmlOf [("watch", watch.xml), ("zu_8hpp", macros ["ZU_FORMATTER", "ZU_HAS_FORMAT"])])
      "  #undef  ZU_FORMATTER\nZU_FORMATTER(Status);\n#define ZU_FORMATTER(TYPE)".toList := by
  refine publish_congr (fun d => ?_) fun l => ?_
  · change d ∈ [_, _, _] ↔ d ∈ [_, _]
    simp only [List.mem_cons, List.not_mem_nil, or_false]
    tauto
  · have hperm : (splitlines formatHeader).Perm (splitlines
        "  #undef  ZU_FORMATTER\nZU_FORMATTER(Status);\n#define ZU_FORMATTER(TYPE)".toList) := by
      decide
    exact hperm.mem_iff

/-! ### Where it stops -/

/-- The loop stops at the first line that is not the one its key is filed for, and answers
that one with it. -/
theorem checkKeys_clash_iff {lines : List Text} {seen : Dict Text Text} {a b : Text} :
    checkKeys lines seen = .error (.clash a b) ↔
      ∃ before behind, lines = before ++ b :: behind ∧ checkKeys before seen = .ok () ∧ a ≠ b ∧
        (seen.get (key b) = some a ∨ a ∈ before ∧ key a = key b) := by
  induction lines generalizing seen with
  | nil =>
    refine iff_of_false nofun ?_
    rintro ⟨before, behind, h, -⟩
    exact List.append_ne_nil_of_right_ne_nil before (List.cons_ne_nil b behind) h.symm
  | cons line lines ih =>
    by_cases hline : Fits seen line
    · have hstep : ∀ ls, checkKeys (line :: ls) seen
          = checkKeys ls (setdefault seen (key line) line).2 := by
        intro ls
        rw [checkKeys]
        exact if_neg (not_not.mpr (setdefault_eq_iff.mpr hline))
      have hget : (setdefault seen (key line) line).2.get (key b)
          = if key b = key line then some line else seen.get (key b) := by
        rw [setdefault_get, ← setdefault_fst, setdefault_eq_iff.mpr hline]
      rw [hstep, ih]
      constructor
      · rintro ⟨before, behind, rfl, hok, hne, hfiled⟩
        refine ⟨line :: before, behind, rfl, (hstep before).trans hok, hne, ?_⟩
        rcases hfiled with hfiled | ⟨ha, hk⟩
        · rw [hget] at hfiled
          split at hfiled
          · rename_i hk
            obtain rfl : line = a := Option.some.inj hfiled
            exact Or.inr ⟨List.mem_cons_self, hk.symm⟩
          · exact Or.inl hfiled
        · exact Or.inr ⟨List.mem_cons_of_mem _ ha, hk⟩
      · rintro ⟨before, behind, hlines, hok, hne, hfiled⟩
        cases before with
        | nil =>
          obtain ⟨rfl, -⟩ := List.cons.inj hlines
          rcases hfiled with hfiled | ⟨ha, -⟩
          · exact absurd (hline a hfiled) hne
          · exact absurd ha List.not_mem_nil
        | cons first before =>
          obtain ⟨rfl, rfl⟩ := List.cons.inj hlines
          refine ⟨before, behind, rfl, (hstep before).symm.trans hok, hne, ?_⟩
          rw [hget]
          rcases hfiled with hfiled | ⟨ha, hk⟩
          · left
            split
            · rename_i hk
              rw [hline a (hk ▸ hfiled)]
            · exact hfiled
          · rcases List.mem_cons.mp ha with rfl | ha
            · exact Or.inl (if_pos hk.symm)
            · exact Or.inr ⟨ha, hk⟩
    · -- the first line is the one it stops at
      obtain ⟨u, hu, hne⟩ : ∃ u, seen.get (key line) = some u ∧ u ≠ line := by
        simpa only [Fits, not_forall, exists_prop] using hline
      have hstop : ∀ ls, checkKeys (line :: ls) seen = .error (.clash u line) := by
        intro ls
        have hfst : (setdefault seen (key line) line).1 = u := by
          rw [setdefault_fst, hu, Option.getD_some]
        rw [checkKeys]
        dsimp only
        rw [hfst, if_pos hne]
      rw [hstop]
      constructor
      · intro h
        obtain ⟨rfl, rfl⟩ : u = a ∧ line = b := by simpa using h
        exact ⟨[], lines, rfl, rfl, hne, Or.inl hu⟩
      · rintro ⟨before, behind, hlines, hok, hne', hfiled⟩
        cases before with
        | nil =>
          obtain ⟨rfl, -⟩ := List.cons.inj hlines
          rcases hfiled with hfiled | ⟨ha, -⟩
          · rw [hu, Option.some.injEq] at hfiled
            rw [hfiled]
          · exact absurd ha List.not_mem_nil
        | cons first before =>
          obtain ⟨rfl, -⟩ := List.cons.inj hlines
          rw [hstop] at hok
          cases hok

/-- **Where `surface` stops, and which two lines it names.**  It stops with two lines exactly
when the second is the first in the order of the file whose key a different line before it
has, and the first is that line. -/
theorem surface_clash_iff {found formatters : List (Text × Text)} {a b : Text} :
    surface found formatters = .error (.clash a b) ↔
      found ≠ [] ∧ ∃ before behind,
        (sortedPairs (found ++ formatters).dedup).map Prod.snd = before ++ b :: behind ∧
        Distinct before ∧ a ∈ before ∧ key a = key b ∧ a ≠ b := by
  rw [surface]
  by_cases hfound : found = []
  · rw [if_pos hfound]
    exact iff_of_false (fun h => by cases h) fun h => h.1 hfound
  · rw [if_neg hfound]
    dsimp only
    set lines := (sortedPairs (found ++ formatters).dedup).map Prod.snd
    have hempty : ∀ ls : List Text, ∀ line ∈ ls, Fits ⟨[], List.nodup_nil⟩ line :=
      fun _ line _ u hu => by cases hu
    have hclash : checkKeys lines ⟨[], List.nodup_nil⟩ = .error (.clash a b) ↔
        ∃ before behind, lines = before ++ b :: behind ∧ Distinct before ∧ a ∈ before ∧
          key a = key b ∧ a ≠ b := by
      rw [checkKeys_clash_iff]
      refine exists₂_congr fun before behind => and_congr_right fun _ => ?_
      rw [checkKeys_ok_iff, and_iff_left (hempty before)]
      constructor
      · rintro ⟨hd, hne, hget | ⟨ha, hk⟩⟩
        · cases hget
        · exact ⟨hd, ha, hk, hne⟩
      · rintro ⟨hd, ha, hk, hne⟩
        exact ⟨hd, hne, Or.inr ⟨ha, hk⟩⟩
    rw [and_iff_right hfound, ← hclash]
    cases checkKeys lines ⟨[], List.nodup_nil⟩ with
    | error stop =>
      change Except.error stop = Except.error (Stop.clash a b) ↔ _
      rw [Except.error.injEq, Except.error.injEq]
    | ok u => exact iff_of_false (fun h => by cases h) fun h => by cases h

end ZuCpp.Surface
