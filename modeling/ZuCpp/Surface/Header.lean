import ZuCpp.Surface.Walk
import ZuCpp.Surface.Qualifier

/-!
# What is read out of the header itself

Two things the XML does not say are read line by line out of `zu.hpp`: the macros it
undefines again, and the `ZU_FORMATTER` invocations.  Both are regular expressions on a line
without the spaces around it, and `undef?_eq_some_iff` and `formatter?_eq_some_iff` say which
lines they match.

`publish` is the whole of `surface`: the XML and the header together.  Every line of it says
in its first word what it is of, so **a macro is listed exactly when it is public and no line
of the header undefines it**, and a formatter exactly when the header has an invocation for
it (`header_listed_iff`).
-/

namespace ZuCpp.Surface

open Lib

/-! ### The two regular expressions -/

structure WordChars where
  word : Char → Bool
  ascii : ∀ c : Char, c.toNat < 128 → word c = (c.isAlphanum || c = '_')
  not_space : ∀ c, isSpace c = true → word c = false

def behind? (s : String) (t : Text) : Option Text :=
  if s.toList <+: t then some (t.drop s.toList.length) else none

/-- `\s+(\w+)`, the group of it. -/
def nameBehind? (W : WordChars) (rest : Text) : Option Text :=
  let name := (rest.dropWhile isSpace).takeWhile W.word
  if rest.head?.any isSpace ∧ name ≠ [] then some name else none

/-- `re.match(r"#undef\s+(\w+)", line.strip())`, the group of it. -/
def undef? (W : WordChars) (line : Text) : Option Text :=
  (behind? "#undef" (python.strip line)).bind (nameBehind? W)

/-- `(.+)` in front of the last `sep` of a line. -/
def upToLast (sep : Text) : Text → Option Text
  | [] => none
  | c :: s =>
    if c = '\n' then none
    else
      match upToLast sep s with
      | some g => some (c :: g)
      | none => if sep <+: s then some [c] else none

/-- `re.match(r"ZU_FORMATTER\((.+)\);", line.strip())`, the group of it. -/
def formatter? (line : Text) : Option Text :=
  (behind? "ZU_FORMATTER(" (python.strip line)).bind (upToLast ");".toList)

/-- `undefined`: the macros the header takes back before it ends. -/
def undefined (W : WordChars) (header : Text) : List Text :=
  (splitlines header).filterMap (undef? W)

def formatterLine (type : Text) : Text × Text :=
  entry "formatter".toList ("std::formatter< ".toList ++ type ++ " >".toList) []

/-- `formatters`: the `std::formatter` specializations, read out of the header. -/
def formatters (header : Text) : List (Text × Text) :=
  ((splitlines header).filterMap formatter?).map formatterLine

def publish (W : WordChars) (xml : Xml) (header : Text) : Except Stop (List Text) :=
  surface (xml.found (undefined W header)) (formatters header)

def asciiWords : WordChars where
  word c := c.toNat < 128 && (c.isAlphanum || c = '_')
  ascii c hc := by rw [decide_eq_true hc, Bool.true_and]
  not_space c hc := by
    have halpha := not_isAlpha_of_isSpace hc
    have hdigit : c.isDigit = false := by
      simp only [isSpace, decide_eq_true_eq] at hc
      simp only [Char.isDigit, Bool.and_eq_false_iff, decide_eq_false_iff_not,
        UInt32.le_iff_toNat_le, ge_iff_le]
      change ¬ 48 ≤ c.toNat ∨ ¬ c.toNat ≤ 57
      omega
    have hunderscore : c ≠ '_' := by
      rintro rfl
      exact absurd hc (by decide)
    rw [Char.isAlphanum, halpha, hdigit, decide_eq_false hunderscore]
    exact Bool.and_false _

/-! ### Which lines they match -/

theorem strip_split (s : Text) : ∃ u v, s = u ++ (python.strip s ++ v) ∧
    (∀ c ∈ u, isSpace c = true) ∧ ∀ c ∈ v, isSpace c = true := by
  refine ⟨s.takeWhile isSpace, (s.dropWhile isSpace).rtakeWhile isSpace, ?_,
    fun c hc => List.mem_takeWhile_imp hc, fun c hc => List.mem_rtakeWhile_imp hc⟩
  have hright : python.strip s ++ (s.dropWhile isSpace).rtakeWhile isSpace = s.dropWhile isSpace :=
    List.rdropWhile_append_rtakeWhile
  rw [hright, List.takeWhile_append_dropWhile]

/-- What `strip` leaves between two characters that are no spaces. -/
theorem strip_between {u s t : Text} {c d : Char} (hu : ∀ a ∈ u, isSpace a = true)
    (hc : isSpace c = false) (hd : isSpace d = false) :
    python.strip (u ++ c :: (s ++ d :: t)) = c :: (s ++ d :: t.rdropWhile isSpace) := by
  have hleft : (u ++ c :: (s ++ d :: t)).dropWhile isSpace = c :: (s ++ d :: t) := by
    rw [dropWhile_spaces hu, List.dropWhile_cons_of_neg (ne_true_of_eq_false hc)]
  change ((u ++ c :: (s ++ d :: t)).dropWhile isSpace).rdropWhile isSpace = _
  rw [hleft, ← List.cons_append, rdropWhile_around (ne_true_of_eq_false hd)]
  rfl

theorem behind?_eq_some {s : String} {t rest : Text} :
    behind? s t = some rest ↔ t = s.toList ++ rest := by
  rw [behind?]
  split
  · rename_i h
    obtain ⟨u, rfl⟩ := h
    rw [List.drop_left, Option.some.injEq, List.append_cancel_left_eq]
  · rename_i h
    refine iff_of_false nofun ?_
    rintro rfl
    exact h (List.prefix_append _ _)

theorem WordChars.space_eq_false (W : WordChars) {c : Char} (hc : W.word c = true) :
    isSpace c = false := by
  by_contra hs
  rw [W.not_space c (eq_true_of_ne_false hs)] at hc
  cases hc

/-- A word behind spaces is read up to the first character that is none of a word. -/
theorem word_behind_spaces {W : WordChars} {gap name behind : Text}
    (hspaces : ∀ c ∈ gap, isSpace c = true) (hname : name ≠ [])
    (hword : ∀ c ∈ name, W.word c = true) (hbehind : ∀ c ∈ behind.head?, W.word c = false) :
    (gap ++ (name ++ behind)).dropWhile isSpace = name ++ behind ∧
      (name ++ behind).takeWhile W.word = name ∧ (name ++ behind).dropWhile W.word = behind := by
  refine ⟨(run_append hspaces ?_).2, run_append hword hbehind⟩
  intro c hc
  rw [List.head?_append_of_ne_nil _ hname] at hc
  exact W.space_eq_false (hword c (List.mem_of_mem_head? hc))

/-- A name behind at least one space, as it is written. -/
def NameBehind (W : WordChars) (rest name : Text) : Prop :=
  ∃ gap behind, rest = gap ++ (name ++ behind) ∧ gap ≠ [] ∧ (∀ c ∈ gap, isSpace c = true) ∧
    name ≠ [] ∧ (∀ c ∈ name, W.word c = true) ∧ ∀ c ∈ behind.head?, W.word c = false

theorem nameBehind?_eq_some_iff {W : WordChars} {rest name : Text} :
    nameBehind? W rest = some name ↔ NameBehind W rest name := by
  rw [nameBehind?, Option.ite_none_right_eq_some, Option.some.injEq]
  constructor
  · rintro ⟨⟨hspace, hname⟩, rfl⟩
    set tail := rest.dropWhile isSpace
    refine ⟨rest.takeWhile isSpace, tail.dropWhile W.word, ?_, ?_,
      fun c hc => List.mem_takeWhile_imp hc, hname, fun c hc => List.mem_takeWhile_imp hc, ?_⟩
    · rw [List.takeWhile_append_dropWhile, List.takeWhile_append_dropWhile]
    · cases rest with
      | nil => cases hspace
      | cons c rest =>
        have hc : isSpace c = true := hspace
        rw [List.takeWhile_cons_of_pos hc]
        exact List.cons_ne_nil _ _
    · intro c hc
      have h := List.head?_dropWhile_not W.word tail
      rw [Option.mem_def.mp hc] at h
      simpa using h
  · rintro ⟨gap, behind, rfl, hgap, hspaces, hname, hword, hbehind⟩
    obtain ⟨hdrop, htake, -⟩ := word_behind_spaces hspaces hname hword hbehind
    rw [hdrop, htake]
    refine ⟨⟨?_, hname⟩, rfl⟩
    cases gap with
    | nil => exact absurd rfl hgap
    | cons c cs => exact hspaces c List.mem_cons_self

/-- What stands behind a character that is no space, in front of the spaces at the end. -/
theorem behind_of_spaces {s t after behind : Text} {c : Char} (hc : isSpace c = false)
    (hafter : ∀ a ∈ after, isSpace a = true) (h : s ++ after = t ++ c :: behind) :
    ∃ u, s = t ++ c :: u := by
  have hmem : c ∉ after := fun hm => ne_true_of_eq_false hc (hafter c hm)
  rcases List.append_eq_append_iff.mp h with ⟨a, -, ha⟩ | ⟨a, hs, ha⟩
  · exact absurd (ha ▸ List.mem_append_right a List.mem_cons_self) hmem
  · cases a with
    | nil =>
      rw [List.nil_append] at ha
      exact absurd (ha ▸ List.mem_cons_self) hmem
    | cons d u =>
      obtain ⟨rfl, -⟩ := List.cons.inj ha
      exact ⟨u, hs⟩

theorem NameBehind.append_spaces {W : WordChars} {rest name after : Text}
    (hafter : ∀ c ∈ after, isSpace c = true) :
    NameBehind W (rest ++ after) name ↔ NameBehind W rest name := by
  constructor
  · rintro ⟨gap, behind, heq, hgap, hspaces, hname, hword, hbehind⟩
    obtain ⟨name, d, rfl⟩ := (List.eq_nil_or_concat' name).resolve_left hname
    have hd : isSpace d = false :=
      W.space_eq_false (hword d (List.mem_append_right _ (List.mem_singleton.mpr rfl)))
    have hline : rest ++ after = (gap ++ name) ++ d :: behind := by
      simpa only [List.append_assoc, List.singleton_append] using heq
    obtain ⟨u, rfl⟩ := behind_of_spaces hd hafter hline
    refine ⟨gap, u, by simp only [List.append_assoc, List.singleton_append], hgap, hspaces, hname,
      hword, ?_⟩
    have hu : u ++ after = behind := by
      rw [List.append_assoc, List.append_cancel_left_eq, List.cons_append, List.cons.injEq] at hline
      exact hline.2
    intro c hc
    exact hbehind c (mem_head_of_starts ⟨after, hu⟩ hc)
  · rintro ⟨gap, behind, rfl, hgap, hspaces, hname, hword, hbehind⟩
    refine ⟨gap, behind ++ after, by simp only [List.append_assoc], hgap, hspaces, hname, hword, ?_⟩
    intro c hc
    cases behind with
    | nil => exact W.not_space c (hafter c (List.mem_of_mem_head? hc))
    | cons d behind => exact hbehind c hc

/-- A line that undefines `name`, as it is written. -/
def Undefines (W : WordChars) (line name : Text) : Prop :=
  ∃ before rest, line = before ++ ("#undef".toList ++ rest) ∧
    (∀ c ∈ before, isSpace c = true) ∧ NameBehind W rest name

/-- **Which lines undefine a macro.** -/
theorem undef?_eq_some_iff {W : WordChars} {line name : Text} :
    undef? W line = some name ↔ Undefines W line name := by
  rw [undef?, Option.bind_eq_some_iff]
  simp only [behind?_eq_some, nameBehind?_eq_some_iff]
  constructor
  · rintro ⟨rest, hstrip, hname⟩
    obtain ⟨before, after, hline, hbefore, hafter⟩ := strip_split line
    refine ⟨before, rest ++ after, ?_, hbefore, (NameBehind.append_spaces hafter).mpr hname⟩
    rw [hline, hstrip, List.append_assoc]
  · rintro ⟨before, rest, rfl, hbefore, hname⟩
    refine ⟨rest.rdropWhile isSpace, ?_, ?_⟩
    · exact strip_between (s := "unde".toList) (c := '#') (d := 'f') hbefore (by decide) (by decide)
    · rw [← NameBehind.append_spaces (fun c hc => List.mem_rtakeWhile_imp hc),
        List.rdropWhile_append_rtakeWhile]
      exact hname

/-- A line that makes a formatter of `type`, as it is written: `);` stands behind the type, and
further to the right nowhere. -/
def Invokes (line type : Text) : Prop :=
  type ≠ [] ∧ '\n' ∉ type ∧ ∃ before rest,
    line = before ++ ("ZU_FORMATTER(".toList ++ (type ++ (");".toList ++ rest))) ∧
      (∀ c ∈ before, isSpace c = true) ∧
      ∀ longer behind, type ++ (");".toList ++ rest) = longer ++ (");".toList ++ behind) →
        '\n' ∉ longer → longer.length ≤ type.length

theorem upToLast_some {sep s g : Text} (h : upToLast sep s = some g) :
    g ≠ [] ∧ '\n' ∉ g ∧ ∃ rest, s = g ++ (sep ++ rest) := by
  induction s generalizing g with
  | nil => cases h
  | cons c s ih =>
    rw [upToLast] at h
    split at h
    · cases h
    · rename_i hc
      cases hs : upToLast sep s with
      | some g' =>
        rw [hs] at h
        obtain rfl : c :: g' = g := Option.some.inj h
        obtain ⟨-, hline, rest, rfl⟩ := ih hs
        refine ⟨List.cons_ne_nil _ _, ?_, rest, rfl⟩
        exact fun hmem => (List.mem_cons.mp hmem).elim (fun h => hc h.symm) hline
      | none =>
        rw [hs] at h
        dsimp only at h
        split at h
        · rename_i hsep
          obtain rfl : [c] = g := Option.some.inj h
          obtain ⟨rest, rfl⟩ := hsep
          exact ⟨List.cons_ne_nil _ _, fun hmem => hc (List.mem_singleton.mp hmem).symm, rest, rfl⟩
        · cases h

theorem length_le_upToLast (sep behind : Text) : ∀ {longer : Text}, longer ≠ [] →
    '\n' ∉ longer →
    ∃ g, upToLast sep (longer ++ (sep ++ behind)) = some g ∧ longer.length ≤ g.length := by
  intro longer
  induction longer with
  | nil => exact fun h => absurd rfl h
  | cons c longer ih =>
    intro _ hline
    have hc : ¬ c = '\n' := fun h => hline (h ▸ List.mem_cons_self)
    rw [List.cons_append, upToLast, if_neg hc]
    cases longer with
    | nil =>
      rw [List.nil_append]
      cases upToLast sep (sep ++ behind) with
      | some g => exact ⟨c :: g, rfl, Nat.succ_le_succ (Nat.zero_le _)⟩
      | none => exact ⟨[c], if_pos (List.prefix_append _ _), le_refl _⟩
    | cons d longer =>
      obtain ⟨g, hg, hlen⟩ := ih (List.cons_ne_nil _ _) fun h => hline (List.mem_cons_of_mem c h)
      rw [hg]
      exact ⟨c :: g, rfl, Nat.succ_le_succ hlen⟩

/-- **The group is the longest that it can be.** -/
theorem upToLast_eq_some {sep s g : Text} : upToLast sep s = some g ↔
    g ≠ [] ∧ '\n' ∉ g ∧ ∃ rest, s = g ++ (sep ++ rest) ∧
      ∀ longer behind, s = longer ++ (sep ++ behind) → '\n' ∉ longer →
        longer.length ≤ g.length := by
  constructor
  · intro h
    obtain ⟨hne, hline, rest, hs⟩ := upToLast_some h
    refine ⟨hne, hline, rest, hs, ?_⟩
    rintro longer behind rfl hlonger
    rcases eq_or_ne longer [] with rfl | hlonger'
    · exact Nat.zero_le _
    · obtain ⟨g', hg', hlen⟩ := length_le_upToLast sep behind hlonger' hlonger
      rw [h, Option.some.injEq] at hg'
      exact hg' ▸ hlen
  · rintro ⟨hne, hline, rest, rfl, hlongest⟩
    obtain ⟨g', hg', hlen⟩ := length_le_upToLast sep rest hne hline
    obtain ⟨-, hline', rest', hs⟩ := upToLast_some hg'
    have hlen' := hlongest g' rest' hs hline'
    rw [hg', (List.append_inj hs (le_antisymm hlen hlen')).1]

/-- **Which lines make a formatter.** -/
theorem formatter?_eq_some_iff {line type : Text} :
    formatter? line = some type ↔ Invokes line type := by
  rw [formatter?, Option.bind_eq_some_iff]
  simp only [behind?_eq_some, upToLast_eq_some]
  constructor
  · rintro ⟨s, hstrip, hne, hline, rest, rfl, hlongest⟩
    obtain ⟨before, after, hl, hbefore, hafter⟩ := strip_split line
    rw [hstrip] at hl
    refine ⟨hne, hline, before, rest ++ after, ?_, hbefore, ?_⟩
    · rw [hl]
      simp only [List.append_assoc]
    · intro longer behind heq hlonger
      have hend : ∀ t : Text, ");".toList ++ t = [')'] ++ ';' :: t := fun _ => rfl
      have hline' : (type ++ (");".toList ++ rest)) ++ after
          = (longer ++ [')']) ++ ';' :: behind := by
        simp only [List.append_assoc]
        rw [heq, hend behind]
      obtain ⟨u, hu⟩ := behind_of_spaces (by decide) hafter hline'
      refine hlongest longer u ?_ hlonger
      rw [hu, hend, List.append_assoc]
  · rintro ⟨hne, hline, before, rest, rfl, hbefore, hlongest⟩
    have hstrip :
        python.strip (before ++ ("ZU_FORMATTER(".toList ++ (type ++ (");".toList ++ rest))))
          = "ZU_FORMATTER(".toList ++ (type ++ (");".toList ++ rest.rdropWhile isSpace)) := by
      have h := strip_between (s := "U_FORMATTER(".toList ++ (type ++ [')'])) (c := 'Z') (d := ';')
        (t := rest) hbefore (by decide) (by decide)
      have hword : "ZU_FORMATTER(".toList = 'Z' :: "U_FORMATTER(".toList := rfl
      have hend : ");".toList = [')', ';'] := rfl
      simp only [List.append_assoc, List.cons_append, List.nil_append, hword, hend] at h ⊢
      exact h
    refine ⟨_, hstrip, hne, hline, _, rfl, ?_⟩
    intro longer behind heq hlonger
    refine hlongest longer (behind ++ rest.rtakeWhile isSpace) ?_ hlonger
    have hrest := List.rdropWhile_append_rtakeWhile (p := isSpace) (l := rest)
    conv_lhs => rw [← hrest]
    rw [← List.append_assoc, ← List.append_assoc, List.append_assoc type, heq]
    simp only [List.append_assoc]

/-! ### What a line is of -/

def firstWord (line : Text) : Text := line.takeWhile (· ≠ ' ')

theorem firstWord_collapse {w : Text} (hw : ∀ c ∈ w, isSpace c = false) (hne : w ≠ [])
    (rest : Text) : firstWord (collapse (w ++ ' ' :: rest)) = w := by
  have hblank : ∀ c ∈ w, decide (c ≠ ' ') = true := by
    intro c hc
    rw [decide_eq_true_eq]
    rintro rfl
    exact absurd (hw ' ' hc) (by decide)
  have hflat : python.flat (w ++ ' ' :: rest)
      = w ++ ' ' :: python.flat (rest.dropWhile isSpace) := by
    rw [Spacing.flat_append_word hw, Spacing.flat_cons_space (by decide)]
    rfl
  have hdrop : (python.flat (w ++ ' ' :: rest)).dropWhile isSpace
      = python.flat (w ++ ' ' :: rest) := by
    rw [hflat]
    cases w with
    | nil => exact absurd rfl hne
    | cons c w => exact List.dropWhile_cons_of_neg (ne_true_of_eq_false (hw c List.mem_cons_self))
  obtain ⟨w', d, rfl⟩ := (List.eq_nil_or_concat' w).resolve_left hne
  have hd : ¬ isSpace d = true :=
    ne_true_of_eq_false (hw d (List.mem_append_right _ (List.mem_singleton.mpr rfl)))
  change firstWord (((python.flat _).dropWhile isSpace).rdropWhile isSpace) = _
  rw [hdrop, hflat, List.append_assoc, List.singleton_append, rdropWhile_around hd,
    ← List.singleton_append, ← List.append_assoc, firstWord, List.takeWhile_append_of_pos hblank]
  -- what is left behind the word is nothing, or starts with the blank
  have hnil : ∀ t : Text, ((' ' :: t).rdropWhile isSpace).takeWhile (· ≠ ' ') = [] := by
    intro t
    cases h : (' ' :: t).rdropWhile isSpace with
    | nil => rfl
    | cons c cs =>
      have hc := mem_head_of_starts (List.rdropWhile_prefix isSpace (' ' :: t)) (c := c)
        (by rw [h]; rfl)
      obtain rfl : ' ' = c := Option.some.inj hc
      rfl
  rw [hnil, List.append_nil]

def kindWord (kind : Option Text) : Text :=
  if kind = some "friend".toList then "friend".toList
  else if kind = some "function".toList then "func".toList
  else if kind = some "variable".toList then "var".toList
  else if kind = some "typedef".toList then "using".toList
  else "define".toList

theorem join_space (w : Text) (ws : List Text) :
    ∃ t, join " " (w :: ws) ++ [' '] = w ++ ' ' :: t := by
  cases ws with
  | nil =>
    refine ⟨[], ?_⟩
    rw [join, List.intercalate_singleton]
  | cons v vs =>
    refine ⟨join " " (v :: vs) ++ [' '], ?_⟩
    rw [join, List.intercalate_cons_cons]
    simp only [List.append_assoc]
    rfl

theorem spaceless_word {w : Text} (h : (w.all fun c => !isSpace c) = true) :
    ∀ c ∈ w, isSpace c = false := Spacing.spaceless_of_all (S := python) h

/-- The line is one that `entry` made, and `w` is the word it starts with. -/
def Led (w : Text) (p : Text × Text) : Prop :=
  ∃ kind name tail t, p = entry kind name tail ∧ kind ++ [' '] = w ++ ' ' :: t ∧
    (∀ c ∈ w, isSpace c = false) ∧ w ≠ []

theorem Led.firstWord {w : Text} {p : Text × Text} (h : Led w p) : firstWord p.2 = w := by
  obtain ⟨kind, name, tail, t, rfl, hkind, hw, hne⟩ := h
  have h : kind ++ ' ' :: name ++ tail = w ++ ' ' :: (t ++ (name ++ tail)) := by
    have h' := congrArg (· ++ (name ++ tail)) hkind
    simpa only [List.append_assoc, List.cons_append, List.nil_append] using h'
  rw [entry, h, firstWord_collapse hw hne]

theorem led_entry (w t name tail : Text) (h : (w.all fun c => !isSpace c) = true) (hne : w ≠ []) :
    Led w (entry (w ++ ' ' :: t) name tail) :=
  ⟨_, name, tail, t ++ [' '], rfl, by simp only [List.append_assoc, List.cons_append],
    spaceless_word h, hne⟩

theorem led_word (w name tail : Text) (h : (w.all fun c => !isSpace c) = true) (hne : w ≠ []) :
    Led w (entry w name tail) :=
  ⟨_, name, tail, [], rfl, rfl, spaceless_word h, hne⟩

theorem led_memberEntry {m : Element} {p : Text × Text} (h : memberEntry m = some p) :
    Led (kindWord (m.get "kind")) p := by
  rw [memberEntry] at h
  split at h
  · cases h
  dsimp only at h
  split at h
  · cases h
  split at h
  · rename_i hkind
    obtain rfl := Option.some.inj h
    obtain ⟨t, ht⟩ := join_space (if m.get "kind" = some "friend".toList then "friend".toList
      else "func".toList) (leading m)
    rw [← lead] at ht
    rcases hkind with hkind | hkind
    · rw [hkind] at ht ⊢
      exact ⟨_, _, _, t, rfl, ht, spaceless_word rfl, by decide⟩
    · rw [hkind] at ht ⊢
      exact ⟨_, _, _, t, rfl, ht, spaceless_word rfl, by decide⟩
  split at h
  · rename_i hkind
    obtain rfl := Option.some.inj h
    rw [hkind]
    split
    · exact led_entry "var".toList "static".toList _ _ rfl (by decide)
    · exact led_word "var".toList _ _ rfl (by decide)
  split at h
  · rename_i hkind
    obtain rfl := Option.some.inj h
    rw [hkind]
    exact led_word "using".toList _ _ rfl (by decide)
  split at h
  · rename_i hkind
    obtain rfl := Option.some.inj h
    rw [hkind]
    exact led_word "define".toList _ _ rfl (by decide)
  · cases h

theorem memberEntry_define {m : Element} (hkind : m.get "kind" = some "define".toList) :
    memberEntry m = if isPublic (m.get "prot") = true ∧ memberName m ≠ [] then
      some (entry "define".toList (memberName m) []) else none := by
  rw [memberEntry, hkind]
  by_cases hprot : isPublic (m.get "prot") = true
  · by_cases hname : memberName m = []
    · rw [if_neg (not_not.mpr hprot), if_pos hname, if_neg fun h => h.2 hname]
    · rw [if_neg (not_not.mpr hprot), if_neg hname, if_pos (And.intro hprot hname)]
      rfl
  · rw [if_pos hprot, if_neg fun h => hprot h.1]

theorem kind_of_define {m : Element} {p : Text × Text} (h : memberEntry m = some p)
    (hp : firstWord p.2 = "define".toList) : m.get "kind" = some "define".toList := by
  rw [(led_memberEntry h).firstWord, kindWord] at hp
  by_contra hkind
  rw [memberEntry] at h
  split at hp
  · exact absurd hp (by decide)
  rename_i hfriend
  split at hp
  · exact absurd hp (by decide)
  rename_i hfunction
  split at hp
  · exact absurd hp (by decide)
  rename_i hvariable
  split at hp
  · exact absurd hp (by decide)
  rename_i htypedef
  simp only [hfriend, hfunction, hvariable, htypedef, hkind, or_self, if_false] at h
  split at h
  · cases h
  · split at h <;> cases h

theorem led_enumEntries {m : Element} {p : Text × Text} (h : p ∈ enumEntries m) :
    Led "enum".toList p := by
  rw [enumEntries] at h
  split at h
  · cases h
  · rcases List.mem_cons.mp h with rfl | h
    · exact led_word "enum".toList _ _ rfl (by decide)
    · obtain ⟨value, -, rfl⟩ := List.mem_map.mp h
      exact led_entry "enum".toList "value".toList _ _ rfl (by decide)

theorem led_compoundEntry {d : Element} {p : Text × Text} (h : compoundEntry d = some p) :
    Led "class".toList p ∨ Led "struct".toList p := by
  rw [compoundEntry] at h
  split at h
  · cases h
  cases hkind : d.get "kind" with
  | none =>
    rw [hkind] at h
    cases h
  | some kind =>
    rw [hkind] at h
    dsimp only at h
    split at h
    · cases h
    · rename_i hclass
      obtain rfl := Option.some.inj h
      rw [not_not, isClass, decide_eq_true_eq, Option.some.injEq, Option.some.injEq] at hclass
      rcases hclass with rfl | rfl
      · exact Or.inl (led_word "class".toList _ _ rfl (by decide))
      · exact Or.inr (led_word "struct".toList _ _ rfl (by decide))

structure IsMacro (takenBack : List Text) (m : Element) : Prop where
  kind : m.get "kind" = some "define".toList
  prot : isPublic (m.get "prot") = true
  named : memberName m ≠ []
  kept : ∀ name ∈ m.findtext "name", name ∉ takenBack

theorem define_memberEntries_iff {takenBack : List Text} {kind : Option Text} {m : Element}
    {p : Text × Text} :
    p ∈ memberEntries takenBack kind m ∧ firstWord p.2 = "define".toList ↔
      IsMacro takenBack m ∧ p = entry "define".toList (memberName m) [] := by
  rw [memberEntries]
  by_cases hkind : m.get "kind" = some "define".toList
  · have henum : ¬ m.get "kind" = some "enum".toList := by
      rw [hkind]
      decide
    rw [if_neg fun h => h.2 hkind, if_neg henum, memberEntry_define hkind]
    by_cases hback : ∃ name ∈ m.findtext "name", name ∈ takenBack
    · rw [if_pos ⟨hkind, hback⟩]
      refine iff_of_false (fun h => List.not_mem_nil h.1) ?_
      rintro ⟨hm, -⟩
      obtain ⟨name, hname, hmem⟩ := hback
      exact hm.kept name hname hmem
    · rw [if_neg fun h => hback h.2]
      split
      · rename_i hm
        rw [Option.toList_some, List.mem_singleton]
        constructor
        · rintro ⟨rfl, -⟩
          exact ⟨⟨hkind, hm.1, hm.2, fun name hname hmem => hback ⟨name, hname, hmem⟩⟩, rfl⟩
        · rintro ⟨-, rfl⟩
          exact ⟨rfl, (led_word "define".toList _ _ rfl (by decide)).firstWord⟩
      · rename_i hm
        exact iff_of_false (fun h => List.not_mem_nil h.1) fun h => hm ⟨h.1.prot, h.1.named⟩
  · refine iff_of_false ?_ fun h => hkind h.1.kind
    rintro ⟨hp, hword⟩
    split at hp
    · cases hp
    rw [if_neg fun h => hkind h.1] at hp
    split at hp
    · rw [(led_enumEntries hp).firstWord] at hword
      exact absurd hword (by decide)
    · exact hkind (kind_of_define (Option.mem_toList.mp hp) hword)

def IsRead (d : Element) : Prop :=
  d.get "kind" ≠ some "dir".toList ∧
    (isClass (d.get "kind") = true → isPublic (d.get "prot") = true)

theorem define_definitionEntries_iff {takenBack : List Text} {d : Element} {p : Text × Text} :
    p ∈ definitionEntries takenBack d ∧ firstWord p.2 = "define".toList ↔
      IsRead d ∧ ∃ m ∈ d.iter "memberdef", IsMacro takenBack m ∧
        p = entry "define".toList (memberName m) [] := by
  have hmembers : p ∈ (d.iter "memberdef").flatMap (memberEntries takenBack (d.get "kind")) ∧
      firstWord p.2 = "define".toList ↔ ∃ m ∈ d.iter "memberdef", IsMacro takenBack m ∧
        p = entry "define".toList (memberName m) [] := by
    rw [List.mem_flatMap, ← exists_and_right]
    refine exists_congr fun m => ?_
    rw [and_assoc, define_memberEntries_iff]
  rw [definitionEntries]
  by_cases hdir : d.get "kind" = some "dir".toList
  · rw [if_pos hdir]
    exact iff_of_false (fun h => List.not_mem_nil h.1) fun h => h.1.1 hdir
  rw [if_neg hdir]
  by_cases hclass : isClass (d.get "kind") = true
  · rw [if_pos hclass]
    cases hone : compoundEntry d with
    | none =>
      have hprot : ¬ isPublic (d.get "prot") = true := by
        intro hprot
        rw [compoundEntry, if_neg (not_not.mpr hprot)] at hone
        cases hkind : d.get "kind" with
        | none =>
          rw [hkind] at hclass
          exact absurd hclass (by decide)
        | some kind =>
          rw [hkind] at hone hclass
          dsimp only at hone
          rw [if_neg (not_not.mpr hclass)] at hone
          cases hone
      exact iff_of_false (fun h => List.not_mem_nil h.1) fun h => hprot (h.1.2 hclass)
    | some one =>
      have hprot : isPublic (d.get "prot") = true := by
        by_contra hprot
        rw [compoundEntry, if_pos hprot] at hone
        cases hone
      dsimp only
      rw [← hmembers, List.mem_cons]
      constructor
      · rintro ⟨rfl | hp, hword⟩
        · rcases led_compoundEntry hone with h | h
          · exact absurd (h.firstWord.symm.trans hword) (by decide)
          · exact absurd (h.firstWord.symm.trans hword) (by decide)
        · exact ⟨⟨hdir, fun _ => hprot⟩, hp, hword⟩
      · rintro ⟨-, hp, hword⟩
        exact ⟨Or.inr hp, hword⟩
  · rw [if_neg hclass, hmembers]
    exact ⟨fun h => ⟨⟨hdir, fun h' => absurd h' hclass⟩, h⟩, And.right⟩

theorem led_formatterLine (type : Text) : Led "formatter".toList (formatterLine type) :=
  led_word "formatter".toList _ _ rfl (by decide)

theorem mem_formatters {header : Text} {p : Text × Text} :
    p ∈ formatters header ↔
      ∃ line ∈ splitlines header, ∃ type, Invokes line type ∧ formatterLine type = p := by
  rw [formatters, List.mem_map]
  constructor
  · rintro ⟨type, h, rfl⟩
    obtain ⟨line, hline, htype⟩ := List.mem_filterMap.mp h
    exact ⟨line, hline, type, formatter?_eq_some_iff.mp htype, rfl⟩
  · rintro ⟨line, hline, type, htype, rfl⟩
    exact ⟨type, List.mem_filterMap.mpr ⟨line, hline, formatter?_eq_some_iff.mpr htype⟩, rfl⟩

/-- A line of the XML starts with a word, and not with that of a formatter. -/
theorem led_found {xml : Xml} {takenBack : List Text} {p : Text × Text}
    (hp : p ∈ xml.found takenBack) : ∃ w, Led w p ∧ w ≠ "formatter".toList := by
  obtain ⟨d, -, hp⟩ := List.mem_flatMap.mp hp
  have hmember : p ∈ (d.iter "memberdef").flatMap (memberEntries takenBack (d.get "kind")) →
      ∃ w, Led w p ∧ w ≠ "formatter".toList := by
    intro hp
    obtain ⟨m, -, hp⟩ := List.mem_flatMap.mp hp
    rw [memberEntries] at hp
    split at hp
    · cases hp
    split at hp
    · cases hp
    split at hp
    · exact ⟨_, led_enumEntries hp, by decide⟩
    · refine ⟨_, led_memberEntry (Option.mem_toList.mp hp), ?_⟩
      rw [kindWord]
      split_ifs <;> decide
  rw [definitionEntries] at hp
  split at hp
  · cases hp
  split at hp
  · cases hone : compoundEntry d with
    | none =>
      rw [hone] at hp
      cases hp
    | some one =>
      rw [hone] at hp
      rcases List.mem_cons.mp hp with rfl | hp
      · rcases led_compoundEntry hone with h | h
        · exact ⟨_, h, by decide⟩
        · exact ⟨_, h, by decide⟩
      · exact hmember hp
  · exact hmember hp

/-- The line of a public macro, on a page that is read, which no line of the header
undefines. -/
def MacroLine (W : WordChars) (xml : Xml) (header l : Text) : Prop :=
  ∃ d ∈ xml.definitions, IsRead d ∧ ∃ m ∈ d.iter "memberdef",
    m.get "kind" = some "define".toList ∧ isPublic (m.get "prot") = true ∧
    memberName m ≠ [] ∧
    (∀ name ∈ m.findtext "name", ∀ line ∈ splitlines header, ¬ Undefines W line name) ∧
    l = collapse ("define ".toList ++ memberName m)

/-- The line of a formatter that a line of the header invokes the macro for. -/
def FormatterLine (header l : Text) : Prop :=
  ∃ line ∈ splitlines header, ∃ type, Invokes line type ∧
    l = collapse ("formatter std::formatter< ".toList ++ type ++ " >".toList)

/-- **Which macros are listed.** -/
theorem mem_define_iff {W : WordChars} {xml : Xml} {header : Text} {now : List Text}
    (h : publish W xml header = .ok now) (l : Text) :
    l ∈ now ∧ firstWord l = "define".toList ↔ MacroLine W xml header l := by
  have hback : ∀ name, name ∉ undefined W header ↔
      ∀ line ∈ splitlines header, ¬ Undefines W line name := by
    intro name
    rw [undefined, List.mem_filterMap]
    simp only [undef?_eq_some_iff, not_exists, not_and]
  have hline : ∀ m, (entry "define".toList (memberName m) []).2
      = collapse ("define ".toList ++ memberName m) := by
    intro m
    rw [entry, List.append_nil]
    rfl
  rw [mem_surface_iff h]
  constructor
  · rintro ⟨⟨p, hp, rfl⟩, hword⟩
    rcases List.mem_append.mp hp with hp | hp
    · obtain ⟨d, hd, hp⟩ := List.mem_flatMap.mp hp
      obtain ⟨hread, m, hm, hmade, rfl⟩ := define_definitionEntries_iff.mp ⟨hp, hword⟩
      refine ⟨d, hd, hread, m, hm, hmade.kind, hmade.prot, hmade.named, ?_, hline m⟩
      exact fun name hname => (hback name).mp (hmade.kept name hname)
    · obtain ⟨_, -, type, -, rfl⟩ := mem_formatters.mp hp
      rw [(led_formatterLine type).firstWord] at hword
      exact absurd hword (by decide)
  · rintro ⟨d, hd, hread, m, hm, hkind, hprot, hnamed, hkept, rfl⟩
    have hmade : IsMacro (undefined W header) m :=
      ⟨hkind, hprot, hnamed, fun name hname => (hback name).mpr (hkept name hname)⟩
    obtain ⟨hp, hword⟩ := define_definitionEntries_iff.mpr ⟨hread, m, hm, hmade, rfl⟩
    rw [hline] at hword
    refine ⟨⟨_, List.mem_append_left _ (List.mem_flatMap.mpr ⟨d, hd, hp⟩), hline m⟩, hword⟩

/-- **Which formatters are listed.** -/
theorem mem_formatter_iff {W : WordChars} {xml : Xml} {header : Text} {now : List Text}
    (h : publish W xml header = .ok now) (l : Text) :
    l ∈ now ∧ firstWord l = "formatter".toList ↔ FormatterLine header l := by
  have hline : ∀ type, (formatterLine type).2
      = collapse ("formatter std::formatter< ".toList ++ type ++ " >".toList) := by
    intro type
    rw [formatterLine, entry, List.append_nil]
    rfl
  rw [mem_surface_iff h]
  constructor
  · rintro ⟨⟨p, hp, rfl⟩, hword⟩
    rcases List.mem_append.mp hp with hp | hp
    · obtain ⟨w, hw, hne⟩ := led_found hp
      exact absurd (hw.firstWord.symm.trans hword) hne
    · obtain ⟨line, hl, type, htype, rfl⟩ := mem_formatters.mp hp
      exact ⟨line, hl, type, htype, hline type⟩
  · rintro ⟨line, hl, type, htype, rfl⟩
    have hp : formatterLine type ∈ formatters header :=
      mem_formatters.mpr ⟨line, hl, type, htype, rfl⟩
    rw [← hline]
    exact ⟨⟨_, List.mem_append_right _ hp, rfl⟩, (led_formatterLine type).firstWord⟩

/-- **What is listed of the header itself.**  A `define` line is published exactly when some
page that is read has a public macro of that name and no line of the header undefines it, in
whatever spacing; a `formatter` line exactly when a line of the header invokes the macro for
that type. -/
theorem header_listed_iff {W : WordChars} {xml : Xml} {header : Text} {now : List Text}
    (h : publish W xml header = .ok now) :
    (∀ l, l ∈ now ∧ firstWord l = "define".toList ↔ MacroLine W xml header l) ∧
    ∀ l, l ∈ now ∧ firstWord l = "formatter".toList ↔ FormatterLine header l :=
  ⟨mem_define_iff h, mem_formatter_iff h⟩

def macros (names : List String) : Element :=
  .mk "compounddef".toList [("kind".toList, "file".toList)] [] [] <| names.map fun name =>
    .mk "memberdef".toList [("kind".toList, "define".toList), ("prot".toList, "public".toList)] []
      [] [leaf "name" name]

def formatHeader : Text :=
  "#define ZU_FORMATTER(TYPE)\nZU_FORMATTER(Status);\n  #undef  ZU_FORMATTER\n".toList

def formatXml : Xml := xmlOf [("zu_8hpp", macros ["ZU_FORMATTER", "ZU_HAS_FORMAT"])]

theorem header_listed_formatHeader :
    publish asciiWords formatXml formatHeader =
      .ok ["define ZU_HAS_FORMAT".toList, "formatter std::formatter< Status >".toList] ∧
    FormatterLine formatHeader "formatter std::formatter< Status >".toList ∧
    ¬ MacroLine asciiWords formatXml formatHeader "define ZU_FORMATTER".toList := by
  have h : publish asciiWords formatXml formatHeader =
      .ok ["define ZU_HAS_FORMAT".toList, "formatter std::formatter< Status >".toList] := by
    decide
  obtain ⟨hmade, hformatter⟩ := header_listed_iff h
  refine ⟨h, (hformatter _).mp ⟨?_, ?_⟩, fun hl => ?_⟩
  · exact List.mem_cons_of_mem _ (List.mem_singleton.mpr rfl)
  · exact (led_formatterLine "Status".toList).firstWord
  · exact absurd ((hmade _).mpr hl).1 (by decide)

end ZuCpp.Surface
