import ZuCpp.Surface.Order
import ZuCpp.Surface.Lines

/-!
# `docs/reference.py`: the check that the reference is one

The paths are read out of the Doxyfile, the types out of the header, and the types that have
a page out of the index that Doxygen wrote.

* `settings_configured`: the tags a Doxyfile says are read back, whatever stands around them.
* `mem_declared_iff`: the types that are declared are those of the lines that no open
  `namespace detail {` stands before.
* **The two gates are a pair** (`gates_agree`): where the reference passes and the surface
  does, every type the header declares has its line in the file.
-/

namespace ZuCpp.Reference

open Lib Surface

/-! ### `settings` -/

def wanted : List Text :=
  ["INPUT".toList, "OUTPUT_DIRECTORY".toList, "WARN_LOGFILE".toList]

/-- `s.strip('"')`. -/
def unquote (s : Text) : Text := (s.dropWhile (· = '"')).rdropWhile (· = '"')

/-- `re.match(r"\s*(\w+)\s*=\s*(.*?)\s*$", line)`, the groups of it. -/
def setting? (W : WordChars) (line : Text) : Option (Text × Text) :=
  let tag := (line.dropWhile isSpace).takeWhile W.word
  let behind := (line.dropWhile isSpace).dropWhile W.word
  if tag = [] then none else (equals? behind).map fun value => (tag, python.strip value)

def setting (W : WordChars) (found : Dict Text Text) (line : Text) : Dict Text Text :=
  match setting? W line with
  | some (tag, value) => if wanted.contains tag then found.set tag (unquote value) else found
  | none => found

/-- `settings`: the handful of paths the Doxyfile says, or the tags it says nothing about. -/
def settings (W : WordChars) (doxyfile : Text) : Except (List Text) (Dict Text Text) :=
  let found := (splitlines doxyfile).foldl (setting W) ⟨[], List.nodup_nil⟩
  let missing := wanted.filter fun tag => !found.keys.contains tag
  if missing ≠ [] then .error missing else .ok found

/-! ### `declared` and `documented` -/

def opens (line : Text) : Bool := "namespace detail \x7b".toList <+: line

def closes (line : Text) : Bool := "\x7d  // namespace detail".toList <+: line

/-- `line.rstrip().endswith(";")`. -/
def forward (line : Text) : Bool := [';'] <:+ rstrip line

/-- `re.match(r"(?:class|struct)\s+(\w+)\b", line)`, the group of it. -/
def type? (W : WordChars) (line : Text) : Option Text :=
  ((behind? "class" line).or (behind? "struct" line)).bind (nameBehind? W)

def declaredFrom (W : WordChars) (insideDetail : Bool) : List Text → List Text
  | [] => []
  | line :: lines =>
    if opens line then declaredFrom W true lines
    else if closes line then declaredFrom W false lines
    else if insideDetail ∨ forward line then declaredFrom W insideDetail lines
    else (type? W line).toList ++ declaredFrom W insideDetail lines

/-- `declared`: the types `zu.hpp` declares for a caller, read out of the source. -/
def declared (W : WordChars) (header : Text) : List Text :=
  declaredFrom W false (splitlines header)

def withoutZu (s : Text) : Text := (behind? "zu::" s).getD s

/-- `documented`: the classes and structs the reference has a page for, where Doxygen wrote an
index. -/
def documented (index : Option Element) : Option (List Text) :=
  index.map fun root =>
    (root.children.filter fun c => isClass (c.get "kind")).map fun c =>
      withoutZu ((c.findtext "name").getD [])

/-! ### `main` -/

/-- What `build` leaves behind: the index, where Doxygen wrote one, and its warnings. -/
structure Built where
  index : Option Element
  complaints : Text

/-- `[name for name in wanted if name not in documented(xml)]`, which asks for the pages once
for every name. -/
def absent (index : Option Element) : List Text → Option (List Text)
  | [] => some []
  | name :: names => do
    let pages ← documented index
    let rest ← absent index names
    return if pages.contains name then rest else name :: rest

/-- What `main` exits with.  `build` is what Doxygen makes of the Doxyfile, `none` where it
does not run through. -/
def main (W : WordChars) (argv : List Text) (doxyfile header : Text) (build : Option Built) : Nat :=
  if argv.length ≠ 2 then 2
  else
    match settings W doxyfile with
    | .error _ => 1
    | .ok _ =>
      match build with
      | none => 1
      | some built =>
        match absent built.index (declared W header) with
        | none => 1
        | some missing => if missing ≠ [] ∨ built.complaints ≠ [] then 1 else 0

/-! ### What `settings` reads -/

theorem setting_get (W : WordChars) (found : Dict Text Text) (line tag : Text) :
    (setting W found line).get tag =
      if tag ∈ wanted ∧ (setting? W line).map Prod.fst = some tag then
        (setting? W line).map fun p => unquote p.2
      else found.get tag := by
  rw [setting]
  cases h : setting? W line with
  | none => exact (if_neg fun h => nomatch h.2).symm
  | some p =>
    obtain ⟨t, value⟩ := p
    simp only [Option.map_some, Option.some.injEq, List.contains_iff_mem]
    by_cases ht : t ∈ wanted
    · rw [if_pos ht, Dict.get_set]
      by_cases heq : tag = t
      · rw [if_pos heq, if_pos ⟨heq ▸ ht, heq.symm⟩]
      · rw [if_neg heq, if_neg fun h => heq h.2.symm]
    · have hno : ¬ (tag ∈ wanted ∧ t = tag) := fun h => ht (h.2 ▸ h.1)
      rw [if_neg ht, if_neg hno]

/-- A line that says nothing of a tag does not change what is said of it. -/
theorem foldl_setting_get {W : WordChars} {tag : Text} {lines : List Text}
    (h : ∀ l ∈ lines, (setting? W l).map Prod.fst ≠ some tag) (found : Dict Text Text) :
    (lines.foldl (setting W) found).get tag = found.get tag := by
  induction lines generalizing found with
  | nil => rfl
  | cons line lines ih =>
    rw [List.foldl_cons, ih fun l hl => h l (List.mem_cons_of_mem line hl), setting_get,
      if_neg fun h' => h line List.mem_cons_self h'.2]

/-- **The last line that says a tag is the one that counts.** -/
theorem settings_last {W : WordChars} {before behind : List Text} {line tag value : Text}
    (htag : tag ∈ wanted) (hline : setting? W line = some (tag, value))
    (hbehind : ∀ l ∈ behind, (setting? W l).map Prod.fst ≠ some tag) (found : Dict Text Text) :
    ((before ++ line :: behind).foldl (setting W) found).get tag = some (unquote value) := by
  rw [List.foldl_append, List.foldl_cons, foldl_setting_get hbehind, setting_get, hline]
  exact if_pos ⟨htag, rfl⟩

theorem mem_keys_iff_get {d : Dict Text Text} {k : Text} : k ∈ d.keys ↔ ∃ v, d.get k = some v := by
  rw [Dict.mem_keys]
  simp only [Dict.mem_items]

theorem settings_ok_iff {W : WordChars} {doxyfile : Text} {found : Dict Text Text} :
    settings W doxyfile = .ok found ↔
      found = (splitlines doxyfile).foldl (setting W) ⟨[], List.nodup_nil⟩ ∧
        ∀ tag ∈ wanted, ∃ v, found.get tag = some v := by
  rw [settings]
  set all := (splitlines doxyfile).foldl (setting W) ⟨[], List.nodup_nil⟩
  have hmissing : (wanted.filter fun tag => !all.keys.contains tag) = [] ↔
      ∀ tag ∈ wanted, ∃ v, all.get tag = some v := by
    rw [List.filter_eq_nil_iff]
    simp only [Bool.not_eq_true', Bool.not_eq_false, List.contains_iff_mem, mem_keys_iff_get]
  split
  · rename_i hne
    refine iff_of_false (fun h => by cases h) ?_
    rintro ⟨rfl, hall⟩
    exact hne (hmissing.mpr hall)
  · rename_i hnil
    rw [not_not] at hnil
    constructor
    · intro h
      obtain rfl : all = found := Except.ok.inj h
      exact ⟨rfl, hmissing.mp hnil⟩
    · rintro ⟨rfl, -⟩
      rfl

/-! ### A Doxyfile that is written, and read back -/

/-- A value that is no other one with spaces or quotes around it. -/
structure Plain (value : Text) : Prop where
  first : ∀ c ∈ value.head?, isSpace c = false ∧ c ≠ '"'
  last : ∀ c ∈ value.getLast?, isSpace c = false ∧ c ≠ '"'

theorem plain_of_all {value : Text} (h : (value.head?.all (fun c => !isSpace c && c != '"') &&
    value.getLast?.all fun c => !isSpace c && c != '"') = true) : Plain value := by
  rw [Bool.and_eq_true, Option.all_eq_true, Option.all_eq_true] at h
  have hchar : ∀ {c : Char}, (!isSpace c && c != '"') = true → isSpace c = false ∧ c ≠ '"' := by
    intro c hc
    simpa using hc
  exact ⟨fun c hc => hchar (h.1 c hc), fun c hc => hchar (h.2 c hc)⟩

/-- A value as it is written behind the sign: as it is, or in quotes. -/
def Quoted (written value : Text) : Prop := written = value ∨ written = '"' :: (value ++ ['"'])

theorem strip_spaces {gap s trail : Text} (hgap : ∀ c ∈ gap, isSpace c = true)
    (htrail : ∀ c ∈ trail, isSpace c = true) (hfirst : ∀ c ∈ s.head?, isSpace c = false)
    (hlast : ∀ c ∈ s.getLast?, isSpace c = false) : python.strip (gap ++ (s ++ trail)) = s := by
  change ((gap ++ (s ++ trail)).dropWhile isSpace).rdropWhile isSpace = s
  rw [dropWhile_spaces hgap]
  rcases List.eq_nil_or_concat' s with rfl | ⟨u, d, rfl⟩
  · rw [List.nil_append, List.dropWhile_eq_nil_iff.mpr htrail]
    rfl
  · have hd : ¬ isSpace d = true := ne_true_of_eq_false (hlast d List.getLast?_concat)
    have hdrop : (u ++ [d] ++ trail).dropWhile isSpace = u ++ [d] ++ trail := by
      refine Spacing.dropWhile_space (S := python) ?_
      rw [List.head?_append_of_ne_nil _
        (List.append_ne_nil_of_right_ne_nil u (List.cons_ne_nil d []))]
      exact hfirst
    rw [hdrop, List.append_assoc, List.singleton_append, rdropWhile_around hd,
      List.rdropWhile_eq_nil_iff.mpr htrail]

theorem Plain.dropWhile {value : Text} (h : Plain value) (s : Text) (hs : value = [] → s = []) :
    (value ++ s).dropWhile (· = '"') = value ++ s := by
  cases value with
  | nil =>
    rw [hs rfl]
    rfl
  | cons c value =>
    have hc : ¬ decide (c = '"') = true := by
      rw [decide_eq_true_eq]
      exact (h.first c rfl).2
    exact List.dropWhile_cons_of_neg hc

theorem Plain.rdropWhile {value : Text} (h : Plain value) :
    value.rdropWhile (· = '"') = value := by
  rw [List.rdropWhile_eq_self_iff]
  intro hne hc
  exact (h.last _ (List.getLast?_eq_some_getLast hne)).2 (of_decide_eq_true hc)

theorem unquote_plain {value : Text} (h : Plain value) : unquote value = value := by
  have hdrop := h.dropWhile [] fun _ => rfl
  rw [List.append_nil] at hdrop
  rw [unquote, hdrop, h.rdropWhile]

theorem unquote_quoted {value : Text} (h : Plain value) :
    unquote ('"' :: (value ++ ['"'])) = value := by
  rw [unquote, List.dropWhile_cons_of_pos (by decide)]
  rcases eq_or_ne value [] with rfl | hne
  · rfl
  · rw [h.dropWhile _ fun hnil => absurd hnil hne, List.rdropWhile_concat_pos _ _ _ (by decide),
      h.rdropWhile]

theorem unquote_strip {gap written trail value : Text} (hgap : ∀ c ∈ gap, isSpace c = true)
    (htrail : ∀ c ∈ trail, isSpace c = true) (hvalue : Plain value) (h : Quoted written value) :
    unquote (python.strip (gap ++ (written ++ trail))) = value := by
  rcases h with rfl | rfl
  · rw [strip_spaces hgap htrail (fun c hc => (hvalue.first c hc).1)
        fun c hc => (hvalue.last c hc).1,
      unquote_plain hvalue]
  · rw [strip_spaces hgap htrail, unquote_quoted hvalue]
    · intro c hc
      obtain rfl : '"' = c := Option.some.inj hc
      decide
    · intro c hc
      rw [← List.cons_append, List.getLast?_concat] at hc
      obtain rfl : '"' = c := Option.some.inj hc
      decide

/-- A line that starts with `TAG =`, with any spaces around the tag. -/
def Assigns (tag line : Text) : Prop :=
  ∃ lead pad rest, (∀ c ∈ lead, isSpace c = true) ∧ (∀ c ∈ pad, isSpace c = true) ∧
    line = lead ++ (tag ++ (pad ++ '=' :: rest))

theorem setting?_assigns {W : WordChars} {lead tag pad : Text} (htag : tag ≠ [])
    (hword : ∀ c ∈ tag, W.word c = true) (hlead : ∀ c ∈ lead, isSpace c = true)
    (hpad : ∀ c ∈ pad, isSpace c = true) (rest : Text) :
    setting? W (lead ++ (tag ++ (pad ++ '=' :: rest))) = some (tag, python.strip rest) := by
  set behind := pad ++ '=' :: rest
  have hbehind : ∀ c ∈ behind.head?, W.word c = false := by
    intro c hc
    cases hp : pad with
    | nil =>
      have hc' : c ∈ ('=' :: rest).head? := by
        simpa only [behind, hp, List.nil_append] using hc
      obtain rfl : '=' = c := Option.some.inj hc'
      rw [W.ascii _ (by decide)]
      decide
    | cons d pad' =>
      have hc' : c ∈ (d :: (pad' ++ '=' :: rest)).head? := by
        simpa only [behind, hp, List.cons_append] using hc
      obtain rfl : d = c := Option.some.inj hc'
      exact W.not_space d (hpad d (hp ▸ List.mem_cons_self))
  obtain ⟨hdrop, htake, hrest⟩ := word_behind_spaces hlead htag hword hbehind
  have hequals : equals? behind = some rest := by
    rw [equals?_eq_some, dropWhile_spaces hpad]
    exact List.dropWhile_cons_of_neg (by decide)
  rw [setting?, hdrop, htake, hrest, hequals]
  exact if_neg htag

theorem assigns_iff {W : WordChars} {tag line : Text} (htag : tag ≠ [])
    (hword : ∀ c ∈ tag, W.word c = true) :
    Assigns tag line ↔ (setting? W line).map Prod.fst = some tag := by
  constructor
  · rintro ⟨lead, pad, rest, hlead, hpad, rfl⟩
    rw [setting?_assigns htag hword hlead hpad]
    rfl
  · intro h
    rw [setting?] at h
    split at h
    · cases h
    · cases heq : equals? ((line.dropWhile isSpace).dropWhile W.word) with
      | none =>
        rw [heq] at h
        cases h
      | some rest =>
        rw [heq] at h
        obtain rfl : (line.dropWhile isSpace).takeWhile W.word = tag := Option.some.inj h
        set behind := (line.dropWhile isSpace).dropWhile W.word
        refine ⟨line.takeWhile isSpace, behind.takeWhile isSpace, rest,
          fun c => List.mem_takeWhile_imp, fun c => List.mem_takeWhile_imp, ?_⟩
        rw [← equals?_eq_some.mp heq, List.takeWhile_append_dropWhile,
          List.takeWhile_append_dropWhile, List.takeWhile_append_dropWhile]

/-- The last line that assigns to `tag` says `value`. -/
def Says (lines : List Text) (tag value : Text) : Prop :=
  ∃ before lead pad gap written trail behind,
    lines = before ++ (lead ++ (tag ++ (pad ++ '=' :: (gap ++ (written ++ trail))))) :: behind ∧
    (∀ c ∈ lead ++ pad ++ gap ++ trail, isSpace c = true) ∧ Quoted written value ∧
    ∀ l ∈ behind, ¬ Assigns tag l

theorem word_wanted {W : WordChars} {tag : Text} (h : tag ∈ wanted) :
    tag ≠ [] ∧ ∀ c ∈ tag, W.word c = true := by
  have hascii : ∀ s : Text, (s.all fun c => c.toNat < 128 && (c.isAlphanum || c = '_')) = true →
      ∀ c ∈ s, W.word c = true := by
    intro s hs c hc
    have hc' := List.all_eq_true.mp hs c hc
    rw [Bool.and_eq_true, decide_eq_true_eq] at hc'
    rw [W.ascii c hc'.1, hc'.2]
  rw [wanted] at h
  fin_cases h
  · exact ⟨by decide, hascii _ rfl⟩
  · exact ⟨by decide, hascii _ rfl⟩
  · exact ⟨by decide, hascii _ rfl⟩

/-- **The Doxyfile is read back as it was written.**  Whatever other lines stand around them,
whatever spaces stand around a tag and a value, and whether the value is in quotes or not,
`settings` answers for every tag what the last line that assigns to it says. -/
theorem settings_configured {W : WordChars} {lines : List Text} {values : Text → Text}
    (hlines : ∀ l ∈ lines, OneLine l) (hvalues : ∀ tag ∈ wanted, Plain (values tag))
    (hwritten : ∀ tag ∈ wanted, Says lines tag (values tag)) :
    ∃ found, settings W (unlines lines) = .ok found ∧
      ∀ tag ∈ wanted, found.get tag = some (values tag) := by
  have hget : ∀ tag ∈ wanted, (lines.foldl (setting W) ⟨[], List.nodup_nil⟩).get tag
      = some (values tag) := by
    intro tag htag
    obtain ⟨before, lead, pad, gap, written, trail, behind, heq, hspaces, hquoted, hbehind⟩ :=
      hwritten tag htag
    obtain ⟨hne, hword⟩ := word_wanted (W := W) htag
    simp only [List.forall_mem_append] at hspaces
    obtain ⟨⟨⟨hlead, hpad⟩, hgap⟩, htrail⟩ := hspaces
    have hline := setting?_assigns hne hword hlead hpad (gap ++ (written ++ trail))
    have hlater : ∀ l ∈ behind, (setting? W l).map Prod.fst ≠ some tag := fun l hl =>
      mt (assigns_iff hne hword).mpr (hbehind l hl)
    rw [heq, settings_last htag hline hlater, unquote_strip hgap htrail (hvalues tag htag) hquoted]
  refine ⟨_, settings_ok_iff.mpr ⟨rfl, ?_⟩, ?_⟩
  · rw [splitlines_unlines hlines]
    exact fun tag htag => ⟨_, hget tag htag⟩
  · rw [splitlines_unlines hlines]
    exact hget

def pathLines : List Text := ["# where".toList, "  INPUT   = zu.hpp  ".toList,
  "OUTPUT_DIRECTORY = \"the docs\" ".toList, "WARN_LOGFILE=warnings".toList]

def paths (tag : Text) : Text :=
  if tag = "INPUT".toList then "zu.hpp".toList
  else if tag = "OUTPUT_DIRECTORY".toList then "the docs".toList
  else "warnings".toList

theorem settings_configured_pathLines : ∃ found,
    settings asciiWords (unlines pathLines) = .ok found ∧
      ∀ tag ∈ wanted, found.get tag = some (paths tag) := by
  have hlater : ∀ {tag : Text} {ls : List Text}, tag ∈ wanted →
      (∀ l ∈ ls, (setting? asciiWords l).map Prod.fst ≠ some tag) → ∀ l ∈ ls, ¬ Assigns tag l := by
    intro tag ls htag h l hl
    obtain ⟨hne, hword⟩ := word_wanted (W := asciiWords) htag
    exact mt (assigns_iff hne hword).mp (h l hl)
  refine settings_configured ?_ ?_ ?_
  · intro l hl
    fin_cases hl <;> exact oneLine_of_all rfl
  · intro tag htag
    fin_cases htag <;> exact plain_of_all rfl
  · intro tag htag
    fin_cases htag
    · exact ⟨["# where".toList], "  ".toList, "   ".toList, " ".toList, "zu.hpp".toList,
        "  ".toList, ["OUTPUT_DIRECTORY = \"the docs\" ".toList, "WARN_LOGFILE=warnings".toList],
        rfl, List.all_eq_true.mp rfl, Or.inl rfl, hlater (by decide) (by decide)⟩
    · exact ⟨["# where".toList, "  INPUT   = zu.hpp  ".toList], [], " ".toList, " ".toList,
        "\"the docs\"".toList, " ".toList, ["WARN_LOGFILE=warnings".toList], rfl,
        List.all_eq_true.mp rfl, Or.inr rfl, hlater (by decide) (by decide)⟩
    · exact ⟨["# where".toList, "  INPUT   = zu.hpp  ".toList,
        "OUTPUT_DIRECTORY = \"the docs\" ".toList], [], [], [], "warnings".toList, [], [], rfl,
        nofun, Or.inl rfl, nofun⟩

/-! ### What `declared` finds -/

/-- Whether the loop is inside the machinery behind these lines. -/
def insideBehind (insideDetail : Bool) (lines : List Text) : Bool :=
  lines.foldl (fun b line => if opens line then true else if closes line then false else b)
    insideDetail

/-- The definition of a type for a caller. -/
def Defines (W : WordChars) (line name : Text) : Prop :=
  forward line = false ∧ type? W line = some name

theorem type?_eq_some {W : WordChars} {line name : Text} (h : type? W line = some name) :
    "class".toList <+: line ∨ "struct".toList <+: line := by
  obtain ⟨rest, hrest, -⟩ := Option.bind_eq_some_iff.mp h
  rcases Option.or_eq_some_iff.mp hrest with h | ⟨-, h⟩
  · exact Or.inl ⟨rest, (behind?_eq_some.mp h).symm⟩
  · exact Or.inr ⟨rest, (behind?_eq_some.mp h).symm⟩

theorem Defines.no_marker {W : WordChars} {line name : Text} (h : Defines W line name) :
    opens line = false ∧ closes line = false := by
  have hne : ∀ a b : Text, a.head? ≠ b.head? → a ≠ [] → b ≠ [] → a <+: line → ¬ b <+: line := by
    rintro a b hab ha hb ⟨s, rfl⟩ ⟨t, hbt⟩
    cases a with
    | nil => exact ha rfl
    | cons c a =>
      cases b with
      | nil => exact hb rfl
      | cons d b =>
        obtain ⟨rfl, -⟩ := List.cons.inj hbt
        exact hab rfl
  rw [opens, closes, decide_eq_false_iff_not, decide_eq_false_iff_not]
  rcases type?_eq_some h.2 with htype | htype
  · exact ⟨hne _ _ (by decide) (by decide) (by decide) htype,
      hne _ _ (by decide) (by decide) (by decide) htype⟩
  · exact ⟨hne _ _ (by decide) (by decide) (by decide) htype,
      hne _ _ (by decide) (by decide) (by decide) htype⟩

theorem mem_declaredFrom_cons {W : WordChars} {insideDetail : Bool} {line name : Text}
    {lines : List Text} : name ∈ declaredFrom W insideDetail (line :: lines) ↔
      insideDetail = false ∧ Defines W line name ∨
        name ∈ declaredFrom W (insideBehind insideDetail [line]) lines := by
  have hmarker : opens line = true ∨ closes line = true → ¬ Defines W line name := by
    rintro (h | h) hd
    · exact ne_true_of_eq_false hd.no_marker.1 h
    · exact ne_true_of_eq_false hd.no_marker.2 h
  rw [declaredFrom, insideBehind, List.foldl_cons, List.foldl_nil]
  by_cases hopen : opens line = true
  · rw [if_pos hopen, if_pos hopen]
    exact (or_iff_right fun h => hmarker (Or.inl hopen) h.2).symm
  rw [if_neg hopen, if_neg hopen]
  by_cases hclose : closes line = true
  · rw [if_pos hclose, if_pos hclose]
    exact (or_iff_right fun h => hmarker (Or.inr hclose) h.2).symm
  rw [if_neg hclose, if_neg hclose]
  by_cases hskip : insideDetail = true ∨ forward line = true
  · rw [if_pos hskip]
    refine (or_iff_right ?_).symm
    rintro ⟨hout, hd⟩
    rcases hskip with h | h
    · exact ne_true_of_eq_false hout h
    · exact ne_true_of_eq_false hd.1 h
  · rw [if_neg hskip, List.mem_append, Option.mem_toList]
    rw [not_or, Bool.not_eq_true, Bool.not_eq_true] at hskip
    refine or_congr_left ?_
    exact ⟨fun h => ⟨hskip.1, hskip.2, h⟩, fun h => h.2.2⟩

theorem mem_declaredFrom {W : WordChars} {name : Text} {lines : List Text} :
    ∀ {insideDetail : Bool}, name ∈ declaredFrom W insideDetail lines ↔ ∃ before line behind,
      lines = before ++ line :: behind ∧ insideBehind insideDetail before = false ∧
        Defines W line name := by
  induction lines with
  | nil =>
    intro insideDetail
    refine iff_of_false List.not_mem_nil ?_
    rintro ⟨before, line, behind, h, -⟩
    exact List.append_ne_nil_of_right_ne_nil before (List.cons_ne_nil line behind) h.symm
  | cons first lines ih =>
    intro insideDetail
    rw [mem_declaredFrom_cons, ih]
    constructor
    · rintro (⟨hout, hd⟩ | ⟨before, line, behind, rfl, hout, hd⟩)
      · exact ⟨[], first, lines, rfl, hout, hd⟩
      · exact ⟨first :: before, line, behind, rfl, hout, hd⟩
    · rintro ⟨before, line, behind, hlines, hout, hd⟩
      cases before with
      | nil =>
        obtain ⟨rfl, rfl⟩ := List.cons.inj hlines
        exact Or.inl ⟨hout, hd⟩
      | cons c before =>
        obtain ⟨rfl, rfl⟩ := List.cons.inj hlines
        exact Or.inr ⟨before, line, behind, rfl, hout, hd⟩

def Closed (lines : List Text) : Prop :=
  ∀ before line behind, lines = before ++ line :: behind → opens line = true →
    ∃ l ∈ behind, closes l = true

/-- **Outside of the machinery** is where every marker that opened it is closed again. -/
theorem insideBehind_eq_false_iff {lines : List Text} :
    insideBehind false lines = false ↔ Closed lines := by
  induction lines using List.reverseRecOn with
  | nil =>
    refine iff_of_true rfl ?_
    intro before line behind h
    exact absurd h.symm (List.append_ne_nil_of_right_ne_nil before (List.cons_ne_nil line behind))
  | append_singleton lines last ih =>
    rw [insideBehind, List.foldl_append, List.foldl_cons, List.foldl_nil]
    by_cases hopen : opens last = true
    · rw [if_pos hopen]
      refine iff_of_false nofun fun h => ?_
      obtain ⟨l, hl, -⟩ := h lines last [] rfl hopen
      exact List.not_mem_nil hl
    rw [if_neg hopen]
    by_cases hclose : closes last = true
    · rw [if_pos hclose]
      refine iff_of_true rfl ?_
      intro before line behind h hline
      rcases List.eq_nil_or_concat' behind with rfl | ⟨behind, l, rfl⟩
      · obtain ⟨-, h'⟩ := List.append_inj' h rfl
        rw [(List.cons.inj h').1] at hopen
        exact absurd hline hopen
      · rw [← List.cons_append, ← List.append_assoc] at h
        obtain ⟨-, h'⟩ := List.append_inj' h rfl
        rw [(List.cons.inj h').1] at hclose
        exact ⟨l, List.mem_append_right _ (List.mem_singleton.mpr rfl), hclose⟩
    rw [if_neg hclose]
    change insideBehind false lines = false ↔ _
    rw [ih]
    constructor
    · intro h before line behind heq hline
      rcases List.eq_nil_or_concat' behind with rfl | ⟨behind, l, rfl⟩
      · obtain ⟨-, h'⟩ := List.append_inj' heq rfl
        rw [(List.cons.inj h').1] at hopen
        exact absurd hline hopen
      · rw [← List.cons_append, ← List.append_assoc] at heq
        obtain ⟨m, hm, hc⟩ := h before line behind (List.append_inj' heq rfl).1 hline
        exact ⟨m, List.mem_append_left _ hm, hc⟩
    · rintro h before line behind rfl hline
      obtain ⟨m, hm, hc⟩ := h before line (behind ++ [last]) (by simp) hline
      rcases List.mem_append.mp hm with hm | hm
      · exact ⟨m, hm, hc⟩
      · rw [List.mem_singleton.mp hm] at hc
        exact absurd hc hclose

/-- **Which types are declared.**  The header declares a type exactly when a line that
defines it, and does not only announce it, stands where the machinery is closed. -/
theorem mem_declared_iff {W : WordChars} {header name : Text} :
    name ∈ declared W header ↔ ∃ before line behind,
      splitlines header = before ++ line :: behind ∧ Closed before ∧ Defines W line name := by
  rw [declared, mem_declaredFrom]
  simp only [insideBehind_eq_false_iff]

/-! ### When the reference passes -/

theorem absent_eq_nil_iff {index : Option Element} {names : List Text} :
    absent index names = some [] ↔
      ∀ name ∈ names, ∃ pages, documented index = some pages ∧ name ∈ pages := by
  induction names with
  | nil => exact iff_of_true rfl nofun
  | cons name names ih =>
    rw [List.forall_mem_cons, ← ih, absent]
    cases documented index with
    | none => exact iff_of_false nofun fun h => nomatch h.1
    | some pages =>
      cases absent index names with
      | none => exact iff_of_false nofun fun h => nomatch h.2
      | some rest =>
        change some (if pages.contains name then rest else name :: rest) = some [] ↔ _
        simp only [Option.some.injEq, exists_eq_left', List.contains_iff_mem]
        split
        · rename_i hname
          exact (and_iff_right hname).symm
        · rename_i hname
          exact iff_of_false (List.cons_ne_nil name rest) fun h => hname h.1

/-- **When the reference passes.** -/
theorem main_eq_zero_iff {W : WordChars} {argv : List Text} {doxyfile header : Text}
    {build : Option Built} : main W argv doxyfile header build = 0 ↔
      argv.length = 2 ∧ (∃ found, settings W doxyfile = .ok found) ∧
        ∃ built, build = some built ∧ built.complaints = [] ∧ ∀ name ∈ declared W header,
          ∃ pages, documented built.index = some pages ∧ name ∈ pages := by
  rw [main.eq_def]
  by_cases hargs : argv.length = 2
  · rw [if_neg (not_not.mpr hargs), and_iff_right hargs]
    cases settings W doxyfile with
    | error missing => exact iff_of_false nofun fun ⟨⟨_, h⟩, _⟩ => nomatch h
    | ok found =>
      have hfound : ∃ f, (Except.ok found : Except (List Text) (Dict Text Text)) = .ok f :=
        ⟨found, rfl⟩
      rw [and_iff_right hfound]
      cases build with
      | none => exact iff_of_false nofun fun ⟨_, h, _⟩ => nomatch h
      | some built =>
        simp only [Option.some.injEq, exists_eq_left', ← absent_eq_nil_iff]
        cases absent built.index (declared W header) with
        | none => exact iff_of_false nofun fun h => nomatch h.2
        | some missing =>
          rw [ite_eq_right_iff, Option.some.injEq]
          simp only [Nat.one_ne_zero, imp_false, not_or, ne_eq, not_not]
          exact and_comm
  · rw [if_pos hargs]
    exact iff_of_false nofun fun h => hargs h.1

/-! ### What the two gates say together -/

/-- Doxygen's part: a class or a struct of the index has a page, with its kind and its name,
one of namespace scope is public, and a class says how it derives from another. -/
structure Faithful (xml : Xml) : Prop where
  page : ∀ c ∈ xml.index.children, isClass (c.get "kind") = true →
    ∃ d ∈ xml.definitions, d.get "kind" = c.get "kind" ∧
      d.findtext "compoundname" = c.findtext "name"
  scope : ∀ d ∈ xml.definitions, isClass (d.get "kind") = true →
    ':' ∉ withoutZu ((d.findtext "compoundname").getD []) → isPublic (d.get "prot") = true
  bases : ∀ d ∈ xml.definitions, ∀ ref ∈ d.findall "basecompoundref",
    ∀ prot ∈ ref.get "prot", ∃ t, prot = 'p' :: t

/-- A name of namespace scope, on its own or in `zu`. -/
def Scoped (name written : Text) : Prop := written = name ∨ written = "zu::".toList ++ name

theorem withoutZu_scoped (s : Text) : Scoped (withoutZu s) s := by
  rw [withoutZu]
  cases h : behind? "zu::" s with
  | none => exact Or.inl rfl
  | some t => exact Or.inr (behind?_eq_some.mp h)

theorem word_of_declared {W : WordChars} {header name : Text} (h : name ∈ declared W header) :
    name ≠ [] ∧ ∀ c ∈ name, W.word c = true := by
  obtain ⟨_, line, _, -, -, -, htype⟩ := mem_declared_iff.mp h
  obtain ⟨rest, -, hrest⟩ := Option.bind_eq_some_iff.mp htype
  obtain ⟨_, _, -, -, -, hne, hword, -⟩ := nameBehind?_eq_some_iff.mp hrest
  exact ⟨hne, hword⟩

theorem Scoped.chars {W : WordChars} {name written : Text} (h : Scoped name written)
    (hword : ∀ c ∈ name, W.word c = true) {c : Char} (hc : c ∈ written) :
    c = ':' ∨ W.word c = true := by
  rcases h with rfl | rfl
  · exact Or.inr (hword c hc)
  · rcases List.mem_append.mp hc with hc | hc
    · have hzu : ("zu::".toList.all fun c =>
          c = ':' || (c.toNat < 128 && (c.isAlphanum || c = '_'))) = true := rfl
      have hc' := List.all_eq_true.mp hzu c hc
      rw [Bool.or_eq_true, Bool.and_eq_true, decide_eq_true_eq, decide_eq_true_eq] at hc'
      rcases hc' with h | ⟨hascii, h⟩
      · exact Or.inl h
      · exact Or.inr ((W.ascii c hascii).trans h)
    · exact Or.inr (hword c hc)

/-! ### The key of a type -/

/-- What is written of a type before what it derives from: it ends a word that no separator
and no bracket is in. -/
structure Titled (w : Text) (c : Char) : Prop where
  space : ∀ d ∈ w ++ [c], isSpace d = false
  close : ')' ∉ w ++ [c]
  last : c ≠ '-' ∧ c ≠ '>' ∧ c ≠ ':'

theorem not_infix_of_one_space {sep kind w : Text} (hsep : 2 ≤ sep.count ' ')
    (hkind : ' ' ∉ kind) (hw : ' ' ∉ w) : ¬ sep <:+: kind ++ ' ' :: w := by
  intro h
  have hcount := h.sublist.count_le ' '
  rw [List.count_append, List.count_cons_self, List.count_eq_zero_of_not_mem hkind,
    List.count_eq_zero_of_not_mem hw] at hcount
  omega

theorem head_titled {kind w : Text} {c : Char} (hkind : ' ' ∉ kind) (hw : Titled w c) (rest : Text)
    (hrest : rest = [] ∨ ∃ t, rest = " : p".toList ++ t) :
    head (kind ++ ' ' :: (w ++ c :: rest)) = kind ++ ' ' :: (w ++ [c]) := by
  have hblank : ∀ d ∈ w ++ [c], d ≠ ' ' := by
    rintro d hd rfl
    exact absurd (hw.space ' ' hd) (by decide)
  have hspace : ' ' ∉ w := fun h => hblank ' ' (List.mem_append_left _ h) rfl
  have hc : c ≠ ' ' := hblank c (List.mem_append_right _ (List.mem_singleton.mpr rfl))
  have hno : ∀ sep : Text, 2 ≤ sep.count ' ' → ¬ sep <:+: kind ++ ' ' :: w := fun sep hsep =>
    not_infix_of_one_space hsep hkind hspace
  have hshape : ∀ t : Text, kind ++ ' ' :: (w ++ c :: t) = (kind ++ ' ' :: w) ++ c :: t := by
    intro t
    simp only [List.append_assoc, List.cons_append]
  have harrow : c ∉ arrow := by
    change c ∉ [' ', '-', '>', ' ']
    simp only [List.mem_cons, List.not_mem_nil, or_false, not_or]
    exact ⟨hc, hw.last.1, hw.last.2.1, hc⟩
  have hbase : c ∉ base := by
    change c ∉ [' ', ':', ' ']
    simp only [List.mem_cons, List.not_mem_nil, or_false, not_or]
    exact ⟨hc, hw.last.2.2, hc⟩
  have hcut : upTo base (upTo arrow rest) = [] := by
    rcases hrest with rfl | ⟨t, rfl⟩
    · rfl
    · have hsep : arrow ≠ [] := by decide
      have h := upTo_append (a := " : ".toList) (c := 'p') hsep (by decide) t (by decide)
      change upTo base (upTo arrow (" : ".toList ++ 'p' :: t)) = []
      rw [h]
      exact if_pos (List.prefix_append base _)
  rw [Surface.head, hshape, upTo_append (by decide) harrow _ (hno _ (by decide)),
    upTo_append (by decide) hbase _ (hno _ (by decide)), hcut, List.append_assoc, List.cons_append]

theorem flat_word_blank {w : Text} (hw : ∀ d ∈ w, isSpace d = false) {c : Char}
    (hc : isSpace c = false) (s : Text) :
    python.flat (w ++ ' ' :: c :: s) = w ++ ' ' :: python.flat (c :: s) := by
  have hdrop : (c :: s).dropWhile python.space = c :: s :=
    List.dropWhile_cons_of_neg (ne_true_of_eq_false hc)
  rw [Spacing.flat_append_word hw, Spacing.flat_cons_space (by decide), hdrop]
  rfl

theorem collapse_titled {kind name : Text} (hkind : ∀ d ∈ kind, isSpace d = false)
    (hname : ∀ d ∈ name, isSpace d = false) (hkind0 : kind ≠ []) (hname0 : name ≠ []) (rest : Text)
    (hrest : rest = [] ∨ ∃ t, rest = " : p".toList ++ t) :
    ∃ rest', collapse (kind ++ ' ' :: (name ++ rest)) = kind ++ ' ' :: (name ++ rest') ∧
      (rest' = [] ∨ ∃ t, rest' = " : p".toList ++ t) := by
  have htidy : python.Tidy (kind ++ ' ' :: name) :=
    (Spacing.tidy_word hkind).blank hkind0 (Spacing.tidy_word hname) hname0
  rcases hrest with rfl | ⟨t, rfl⟩
  · rw [List.append_nil]
    exact ⟨[], by rw [List.append_nil]; exact htidy.collapse, Or.inl rfl⟩
  · obtain ⟨n, name', rfl⟩ := List.exists_cons_of_ne_nil hname0
    obtain ⟨k, kind', rfl⟩ := List.exists_cons_of_ne_nil hkind0
    have hn := hname n List.mem_cons_self
    have hk := hkind k List.mem_cons_self
    have hflat : python.flat (k :: kind' ++ ' ' :: (n :: name' ++ (" : p".toList ++ t)))
        = k :: kind' ++ ' ' :: (n :: name' ++ (" : p".toList ++ python.flat t)) := by
      have hcolon := flat_word_blank (w := [':']) (spaceless_word rfl) (c := 'p') (by decide) t
      have htitle := flat_word_blank hname (c := ':') (by decide) (' ' :: 'p' :: t)
      have hwhole := flat_word_blank hkind hn (name' ++ (" : p".toList ++ t))
      rw [Spacing.flat_cons (c := 'p') (by decide)] at hcolon
      refine hwhole.trans (congrArg (fun s => k :: kind' ++ ' ' :: s) ?_)
      refine htitle.trans (congrArg (fun s => n :: name' ++ ' ' :: s) ?_)
      exact hcolon
    refine ⟨" : p".toList ++ (python.flat t).rdropWhile isSpace, ?_, Or.inr ⟨_, rfl⟩⟩
    have hdrop :
        (k :: kind' ++ ' ' :: (n :: name' ++ (" : p".toList ++ python.flat t))).dropWhile isSpace
          = k :: kind' ++ ' ' :: (n :: name' ++ (" : p".toList ++ python.flat t)) :=
      List.dropWhile_cons_of_neg (ne_true_of_eq_false hk)
    have hstrip := rdropWhile_around (p := isSpace) (c := 'p') (by decide) (python.flat t)
      (k :: kind' ++ ' ' :: (n :: name' ++ " : ".toList))
    have hp : ∀ s : Text, " : p".toList ++ s = " : ".toList ++ 'p' :: s := fun _ => rfl
    change ((python.flat _).dropWhile isSpace).rdropWhile isSpace = _
    rw [hflat, hdrop, hp, hp]
    simpa only [List.append_assoc, List.cons_append] using hstrip

theorem starts_baseText {ref : Element} (h : ∀ prot ∈ ref.get "prot", ∃ t, prot = 'p' :: t) :
    ∃ t, baseText ref = 'p' :: t := by
  rw [baseText]
  cases hprot : ref.get "prot" with
  | none => exact ⟨_, rfl⟩
  | some prot =>
    obtain ⟨t, rfl⟩ := h prot hprot
    exact ⟨_, rfl⟩

theorem starts_bases {d : Element}
    (h : ∀ ref ∈ d.findall "basecompoundref", ∀ prot ∈ ref.get "prot", ∃ t, prot = 'p' :: t)
    {bases : List Text} (hb : (d.findall "basecompoundref").map baseText = bases) :
    (if bases = [] then [] else base ++ join ", " bases) = [] ∨
      ∃ t, (if bases = [] then [] else base ++ join ", " bases) = " : p".toList ++ t := by
  cases bases with
  | nil => exact Or.inl rfl
  | cons b bs =>
    rw [if_neg (List.cons_ne_nil b bs)]
    have hmem : b ∈ (d.findall "basecompoundref").map baseText := hb ▸ List.mem_cons_self
    obtain ⟨ref, href, rfl⟩ := List.mem_map.mp hmem
    obtain ⟨t, ht⟩ := starts_baseText (h ref href)
    right
    rw [ht]
    cases bs with
    | nil => exact ⟨t, by rw [join, List.intercalate_singleton]; rfl⟩
    | cons b' bs => exact ⟨_, by rw [join, List.intercalate_cons_cons]; rfl⟩

/-- **The key of a type is its kind and its name**, whatever it derives from. -/
theorem key_compoundLine {d : Element} {kind w : Text} {c : Char}
    (hkind : kind = "class".toList ∨ kind = "struct".toList)
    (hname : (d.findtext "compoundname").getD [] = w ++ [c]) (hw : Titled w c)
    (hbases : ∀ ref ∈ d.findall "basecompoundref", ∀ prot ∈ ref.get "prot", ∃ t, prot = 'p' :: t) :
    key (compoundLine kind d).2 = kind ++ ' ' :: (w ++ [c]) := by
  have hword : (∀ a ∈ kind, isSpace a = false) ∧ kind ≠ [] ∧ ' ' ∉ kind ∧ ')' ∉ kind := by
    rcases hkind with rfl | rfl
    · exact ⟨spaceless_word rfl, by decide, by decide, by decide⟩
    · exact ⟨spaceless_word rfl, by decide, by decide, by decide⟩
  obtain ⟨hspace, hne, hblank, hclose⟩ := hword
  have htidy : collapse (w ++ [c]) = w ++ [c] := (Spacing.tidy_word hw.space).collapse
  have hne' : w ++ [c] ≠ [] := List.append_ne_nil_of_right_ne_nil w (List.cons_ne_nil c [])
  obtain ⟨rest, hline, hrest⟩ :=
    collapse_titled hspace hw.space hne hne' _ (starts_bases hbases rfl)
  have hshape : w ++ [c] ++ rest = w ++ c :: rest := by
    rw [List.append_assoc, List.singleton_append]
  have hhead : head (compoundLine kind d).2 = kind ++ ' ' :: (w ++ [c]) := by
    rw [compoundLine, entry, hname, htidy, List.append_assoc, List.cons_append, hline, hshape]
    exact head_titled hblank hw rest hrest
  have hno : rfind ')' (head (compoundLine kind d).2) = none := by
    rw [hhead, rfind_eq_none, List.mem_append, List.mem_cons, not_or, not_or]
    exact ⟨hclose, by decide, hw.close⟩
  rw [key, hno, hhead]

/-! ### The pair -/

theorem not_word {W : WordChars} {c : Char} (hascii : c.toNat < 128)
    (h : (c.isAlphanum || c = '_') = false) : ¬ W.word c = true := by
  rw [W.ascii c hascii, h]
  exact Bool.false_ne_true

theorem Scoped.titled {W : WordChars} {name written : Text} (h : Scoped name written)
    (hne : name ≠ []) (hword : ∀ c ∈ name, W.word c = true) :
    ∃ w c, written = w ++ [c] ∧ Titled w c := by
  obtain ⟨n, c, rfl⟩ := (List.eq_nil_or_concat' name).resolve_left hne
  have hc : W.word c = true := hword c (List.mem_append_right _ (List.mem_singleton.mpr rfl))
  have hshape : ∃ w, written = w ++ [c] := by
    rcases h with rfl | rfl
    · exact ⟨n, rfl⟩
    · exact ⟨"zu::".toList ++ n, by rw [List.append_assoc]⟩
  obtain ⟨w, rfl⟩ := hshape
  refine ⟨w, c, rfl, ?_, ?_, ?_, ?_, ?_⟩
  · intro d hd
    rcases h.chars hword hd with rfl | hw
    · decide
    · exact W.space_eq_false hw
  · intro hd
    rcases h.chars hword hd with h' | hw
    · exact absurd h' (by decide)
    · exact not_word (by decide) (by decide) hw
  all_goals
    rintro rfl
    exact not_word (by decide) (by decide) hc

theorem compoundLine_mem {xml : Xml} {takenBack : List Text} {d : Element} {kind : Text}
    (hd : d ∈ xml.definitions) (hkind : d.get "kind" = some kind)
    (hclass : isClass (some kind) = true) (hprot : isPublic (d.get "prot") = true) :
    compoundLine kind d ∈ xml.found takenBack := by
  have hdir : some kind ≠ some "dir".toList := by
    intro h
    rw [h] at hclass
    exact absurd hclass (by decide)
  refine List.mem_flatMap.mpr ⟨d, hd, ?_⟩
  rw [definitionEntries, hkind, if_neg hdir, if_pos hclass, compoundEntry, hkind,
    if_neg (not_not.mpr hprot)]
  dsimp only
  rw [if_neg (not_not.mpr hclass)]
  exact List.mem_cons_self

def LineOf (name key : Text) : Prop :=
  ∃ kind written, (kind = "class".toList ∨ kind = "struct".toList) ∧ Scoped name written ∧
    key = kind ++ ' ' :: written

/-- **The two gates are a pair.**  Where the reference passes on what Doxygen wrote and the
surface is read out of the same, every type the header declares for a caller is published
under its name, and is in every file that the surface passes with. -/
theorem gates_agree {W : WordChars} {argv : List Text} {doxyfile header complaints : Text}
    {xml : Xml} {now : List Text} (hxml : Faithful xml)
    (hreference : main W argv doxyfile header (some ⟨some xml.index, complaints⟩) = 0)
    (hsurface : publish W xml header = .ok now) :
    ∀ name ∈ declared W header, ∃ l ∈ now, LineOf name (key l) ∧ ∀ content,
      Surface.main (xml.found (undefined W header)) (formatters header) (some content) = 0 →
        l ∈ splitlines content := by
  intro name hname
  obtain ⟨hne, hword⟩ := word_of_declared hname
  obtain ⟨-, -, built, hbuilt, -, hall⟩ := main_eq_zero_iff.mp hreference
  obtain rfl := Option.some.inj hbuilt
  obtain ⟨pages, hpages, hmem⟩ := hall name hname
  obtain rfl := Option.some.inj hpages
  obtain ⟨c, hc, hcname⟩ := List.mem_map.mp hmem
  obtain ⟨hchild, hclass⟩ := List.mem_filter.mp hc
  obtain ⟨d, hd, hkind, hcompound⟩ := hxml.page c hchild hclass
  have hscoped : Scoped name ((d.findtext "compoundname").getD []) := by
    rw [← hcname, hcompound]
    exact withoutZu_scoped _
  have hdname : withoutZu ((d.findtext "compoundname").getD []) = name := by
    rw [hcompound, hcname]
  rw [← hkind] at hclass
  have hcolon : ':' ∉ name := by
    intro h
    have hw := hword ':' h
    rw [W.ascii _ (by decide)] at hw
    exact absurd hw (by decide)
  have hprot : isPublic (d.get "prot") = true := hxml.scope d hd hclass (hdname ▸ hcolon)
  obtain ⟨kind, hk⟩ : ∃ kind, d.get "kind" = some kind := by
    cases hk : d.get "kind" with
    | none =>
      rw [hk] at hclass
      exact absurd hclass (by decide)
    | some kind => exact ⟨kind, rfl⟩
  rw [hk] at hclass
  have hclass' : kind = "class".toList ∨ kind = "struct".toList := by
    simpa only [isClass, decide_eq_true_eq, Option.some.injEq] using hclass
  obtain ⟨w, c, hwritten, htitled⟩ := hscoped.titled hne hword
  have hkey := key_compoundLine hclass' hwritten htitled (hxml.bases d hd)
  have hmem : (compoundLine kind d).2 ∈ now := (mem_surface_iff hsurface _).mpr
    ⟨_, List.mem_append_left _ (compoundLine_mem hd hk hclass hprot), rfl⟩
  refine ⟨_, hmem, ⟨kind, w ++ [c], hclass', hwritten ▸ hscoped, hkey⟩, fun content hpass => ?_⟩
  have hlast := lastOf_of_distinct key (surface_ok_iff.mp hsurface).2.2 hmem
  rw [← (Surface.main_eq_zero_iff hsurface content).mp hpass] at hlast
  exact (lastOf_some key hlast).1

def statusXml : Xml where
  index := .mk "doxygenindex".toList [] [] []
    [.mk "compound".toList
      [("refid".toList, "status".toList), ("kind".toList, "class".toList)] [] []
      [leaf "name" "zu::Status"]]
  page refid := if refid = "status".toList then
      some (.mk "doxygen".toList [] [] [] [ compounddef "class" "public" "zu::Status" []])
    else none

def statusHeader : Text :=
  ("namespace detail \x7b\nstruct Hidden \x7b\n\x7d  // namespace detail\n"
    ++ "class Status;\nclass Status \x7b\n").toList

theorem gates_agree_status : ∃ l ∈ ["class zu::Status".toList], LineOf "Status".toList (key l) ∧
    ∀ content, Surface.main (statusXml.found (undefined asciiWords statusHeader))
      (formatters statusHeader) (some content) = 0 → l ∈ splitlines content := by
  have hfaithful : Faithful statusXml := by
    refine ⟨?_, ?_, ?_⟩
    · intro c hc _
      obtain rfl := List.mem_singleton.mp hc
      exact ⟨_, List.mem_singleton.mpr rfl, by decide, by decide⟩
    · intro d hd _ _
      obtain rfl : d = compounddef "class" "public" "zu::Status" [] := List.mem_singleton.mp hd
      decide
    · intro d hd ref href
      obtain rfl : d = compounddef "class" "public" "zu::Status" [] := List.mem_singleton.mp hd
      exact absurd href List.not_mem_nil
  have hreference : main asciiWords [[], []] (unlines pathLines) statusHeader
      (some ⟨some statusXml.index, []⟩) = 0 := by decide
  exact gates_agree hfaithful hreference (by decide) _ (by decide)


end ZuCpp.Reference
