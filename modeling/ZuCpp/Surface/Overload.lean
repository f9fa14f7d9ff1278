import ZuCpp.Surface.Gate

/-!
# What of a function decides its key

A function is filed by its line.  `shown` is the text of it that is read, put together
from what Doxygen wrote down: the keywords, the name and the template list, the types and
the defaults of the parameters, what stands behind the last bracket of the argsstring, and
the return type, up to the first arrow or colon with spaces around it.

Where no arrow and no colon stands before the end of the parameter list, three things are
left (`reading_unbroken`): the text before the first opening bracket, the comma pieces of
the types, each up to its first `=`, among them what is left of a default behind its first
comma, and the words `const`, `&` and `&&` behind the last bracket of the argsstring.  Two
declarations are told apart by these and by nothing else.
-/

namespace ZuCpp.Surface

open Lib

/-- A public function, or a public friend, with a name. -/
structure IsFunction (m : Element) : Prop where
  prot : isPublic (m.get "prot") = true
  kind : m.get "kind" = some "function".toList ∨ m.get "kind" = some "friend".toList
  named : memberName m ≠ []

def line (m : Element) : Text := (entry (lead m) (memberName m) (signature m)).2

theorem memberEntry_function {m : Element} (hm : IsFunction m) :
    memberEntry m = some (memberName m, line m) := by
  rw [memberEntry, if_neg (not_not.mpr hm.prot)]
  dsimp only
  rw [if_neg hm.named, if_pos hm.kind]
  rfl

/-! ### What is declared -/

/-- The words in front of the name, by the attributes of the member. -/
def keywords (m : Element) : List Text :=
  (if m.get "kind" = some "friend".toList then "friend" else "func").toList ::
    (["static", "explicit", "constexpr"].filter
      fun w => m.get w = some "yes".toList).map String.toList ++
    if m.get "virt" = some "virtual".toList then ["virtual".toList]
    else if m.get "virt" = some "pure-virtual".toList then ["pure virtual".toList] else []

def front (m : Element) : Text := join " " (keywords m) ++ ' ' :: memberName m ++ template m

def params (m : Element) : List (Text × Text) :=
  (m.findall "param").map fun p => (text (p.find "type"), text (p.find "defval"))

def types (m : Element) : List Text := (params m).map Prod.fst

/-- A parameter as C++ writes it, without its name. -/
def unnamed (p : Text × Text) : Text := if p.2 = [] then p.1 else p.1 ++ " = ".toList ++ p.2

def listed (m : Element) : Text := join ", " ((params m).map unnamed)

def declared (m : Element) : Text := collapse (front m ++ '(' :: listed m ++ [')'])

/-- What stands behind the last bracket of the argsstring. -/
def behind (m : Element) : Text :=
  let args := text (m.find "argsstring")
  if ')' ∈ args then args.rtakeWhile (· ≠ ')') else []

/-- Spaces around the `=` of `=default` and `=delete`. -/
def loose : Text → Text
  | [] => []
  | c :: s =>
    if c = '=' ∧ ("default".toList <+: s.dropWhile isSpace ∨
        "delete".toList <+: s.dropWhile isSpace) then
      ' ' :: '=' :: ' ' :: loose s
    else c :: loose s

def trail (m : Element) : Text := python.flat (loose (behind m))

/-- An arrow and the return type, or nothing. -/
def answer (m : Element) : Text :=
  if text (m.find "type") = [] then [] else arrow ++ text (m.find "type")

/-- The declaration up to the first arrow, and of that up to the first colon. -/
def shown (m : Element) : Text := upTo base (upTo arrow (declared m ++ (trail m ++ answer m)))

/-! ### The keywords and the parameters are written as they are declared -/

theorem lead_eq (m : Element) : lead m = join " " (keywords m) := by
  have hleading : leading m = (["static", "explicit", "constexpr"].filter
      fun w => m.get w = some "yes".toList).map String.toList ++
      if m.get "virt" = some "virtual".toList then ["virtual".toList]
      else if m.get "virt" = some "pure-virtual".toList then ["pure virtual".toList] else [] := by
    have hyes : ∀ (w : String) (ws : List String),
        ((w :: ws).filter fun w => m.get w = some "yes".toList).map String.toList
          = (if m.get w = some "yes".toList then [w.toList] else []) ++
            (ws.filter fun w => m.get w = some "yes".toList).map String.toList := by
      intro w ws
      rw [List.filter_cons]
      split <;> simp_all
    have hvirt : ∀ v : Option Text,
        (if v.getD [] = "virtual".toList ∨ v.getD [] = "pure-virtual".toList then
          [(v.getD []).map fun c => if c = '-' then ' ' else c] else [])
          = if v = some "virtual".toList then ["virtual".toList]
            else if v = some "pure-virtual".toList then ["pure virtual".toList] else [] := by
      rintro (- | v)
      · rfl
      · simp only [Option.getD_some, Option.some.injEq]
        by_cases h1 : v = "virtual".toList
        · rw [if_pos (Or.inl h1), if_pos h1, h1]
          rfl
        · by_cases h2 : v = "pure-virtual".toList
          · rw [if_pos (Or.inr h2), if_neg h1, if_pos h2, h2]
            rfl
          · rw [if_neg (not_or.mpr ⟨h1, h2⟩), if_neg h1, if_neg h2]
    rw [hyes, hyes, hyes, ← hvirt, leading]
    simp only [List.filter_nil, List.map_nil, List.append_nil, List.append_assoc]
  rw [lead, hleading, keywords]
  congr 2
  split <;> rfl

theorem parameters_eq (m : Element) : parameters m = '(' :: (listed m ++ [')']) := by
  rw [parameters, listed, params, List.map_map]
  rfl

/-! ### The qualifiers -/

/-- A match of `definition`: an `=` with any spaces around it, and a word. -/
theorem definition_some {s r rest : Text} (h : definition.at? s = some (r, rest)) :
    ∃ w v u : Text, (∀ c ∈ w, isSpace c = true) ∧ (∀ c ∈ v, isSpace c = true) ∧
      (u = "default".toList ∨ u = "delete".toList) ∧ r = " = ".toList ++ u ∧
      s = w ++ '=' :: (v ++ (u ++ rest)) := by
  obtain ⟨t, heq, h⟩ := Option.bind_eq_some_iff.mp h
  have hs := List.takeWhile_append_dropWhile (p := isSpace) (l := s)
  have ht := List.takeWhile_append_dropWhile (p := isSpace) (l := t)
  rw [equals?_eq_some.mp heq] at hs
  have hword : ∀ {u : Text}, u <+: t.dropWhile isSpace →
      s = s.takeWhile isSpace ++ '=' :: (t.takeWhile isSpace ++
        (u ++ (t.dropWhile isSpace).drop u.length)) := by
    intro u hu
    rw [List.prefix_iff_eq_append.mp hu, ht, hs]
  refine ⟨s.takeWhile isSpace, t.takeWhile isSpace, ?_⟩
  dsimp only at h
  split at h
  · rename_i hu
    cases h
    exact ⟨_, fun c => List.mem_takeWhile_imp, fun c => List.mem_takeWhile_imp, Or.inl rfl, rfl,
      hword hu⟩
  · split at h
    · rename_i hu
      cases h
      exact ⟨_, fun c => List.mem_takeWhile_imp, fun c => List.mem_takeWhile_imp, Or.inr rfl, rfl,
        hword hu⟩
    · cases h

theorem loose_skip {a : Text} (ha : '=' ∉ a) (t : Text) : loose (a ++ t) = a ++ loose t := by
  induction a with
  | nil => rfl
  | cons c a ih =>
    have hc : c ≠ '=' := fun h => ha (h ▸ List.mem_cons_self)
    rw [List.cons_append, loose, if_neg fun h => hc h.1, ih fun h => ha (List.mem_cons_of_mem c h)]
    rfl

theorem mem_of_mem_loose {c : Char} {s : Text} (h : c ∈ loose s) (hspace : c ≠ ' ')
    (hequals : c ≠ '=') : c ∈ s := by
  induction s with
  | nil => cases h
  | cons d s ih =>
    rw [loose] at h
    split at h
    · simp only [List.mem_cons, hspace, hequals, false_or] at h
      exact List.mem_cons_of_mem d (ih h)
    · exact (List.mem_cons.mp h).elim (fun h => h ▸ List.mem_cons_self)
        fun h => List.mem_cons_of_mem d (ih h)

theorem last_loose (s : Text) : (loose s).getLast? = s.getLast? := by
  induction s with
  | nil => rfl
  | cons c s ih =>
    rw [loose]
    split
    · rename_i h
      have hs : s ≠ [] := by
        rintro rfl
        exact absurd h.2 (by decide)
      rw [List.getLast?_cons, List.getLast?_cons, List.getLast?_cons, List.getLast?_cons, ih,
        List.getLast?_eq_some_getLast hs]
      rfl
    · rw [List.getLast?_cons, List.getLast?_cons, ih]

/-- **The substitution sets `=default` and `=delete` apart**, as far as spaces go. -/
theorem flat_sub_definition (t : Text) : ∀ s : Text,
    python.flat (definition.sub s ++ t) = python.flat (loose s ++ t) := by
  refine Pattern.sub_induction (P := definition) rfl ?_ ?_
  · intro c cs h ih
    have hkeep : loose (c :: cs) = c :: loose cs := by
      rw [loose, if_neg]
      rintro ⟨rfl, hword⟩
      have hequals : equals? ('=' :: cs) = some cs := rfl
      rw [definition] at h
      dsimp only at h
      rw [hequals, Option.bind_some] at h
      rcases hword with hword | hword
      · rw [if_pos hword] at h
        cases h
      · rw [if_pos hword] at h
        split at h <;> cases h
    rw [Pattern.sub_of_none h, hkeep]
    exact Spacing.flat_append_congr (S := python) ih [c]
  · intro s r rest h ih
    obtain ⟨w, v, u, hw, hv, hu, rfl, rfl⟩ := definition_some h
    have hno : ∀ {a : Text}, (∀ c ∈ a, isSpace c = true) → '=' ∉ a := fun ha hmem =>
      absurd (ha '=' hmem) (by decide)
    have hword : '=' ∉ u := by rcases hu with rfl | rfl <;> decide
    have hstart : (v ++ (u ++ rest)).dropWhile isSpace = u ++ rest := by
      rw [dropWhile_spaces hv]
      rcases hu with rfl | rfl <;> exact List.dropWhile_cons_of_neg (by decide)
    have hhit : loose ('=' :: (v ++ (u ++ rest)))
        = ' ' :: '=' :: ' ' :: (v ++ (u ++ loose rest)) := by
      rw [loose, hstart, if_pos, loose_skip (hno hv), loose_skip hword]
      refine ⟨rfl, ?_⟩
      rcases hu with rfl | rfl
      · exact Or.inl (List.prefix_append _ _)
      · exact Or.inr (List.prefix_append _ _)
    have hspaces := Spacing.flat_spaces_blank (S := python) hw
      ('=' :: ' ' :: (v ++ (u ++ (loose rest ++ t))))
    have hafter := Spacing.flat_append_congr (S := python)
      (Spacing.flat_blank_spaces (S := python) hv (u ++ (loose rest ++ t))) [' ', '=']
    have hrest := Spacing.flat_append_congr (S := python) ih (" = ".toList ++ u)
    rw [Pattern.sub_of_some h, loose_skip (hno hw), hhit]
    simp only [List.append_assoc, List.cons_append] at hrest ⊢
    exact hrest.trans (hafter.symm.trans hspaces.symm)

theorem tidy_text (e : Option Element) : python.Tidy (text e) := by
  cases e with
  | none => exact Spacing.Tidy.nil
  | some node => exact Spacing.tidy_collapse _

/-- What stands behind the last bracket has none, and does not end with a space. -/
theorem behind_spec (m : Element) :
    ')' ∉ behind m ∧ ∀ b ∈ (behind m).getLast?, isSpace b = false := by
  rw [behind]
  split
  · refine ⟨fun h => by simpa using List.mem_rtakeWhile_imp h, ?_⟩
    intro b hb
    obtain ⟨t, ht⟩ :=
      List.rtakeWhile_suffix (fun c => decide (c ≠ ')')) (text (m.find "argsstring"))
    refine (tidy_text (m.find "argsstring")).last b ?_
    rw [← ht, List.getLast?_append_of_ne_nil]
    · exact hb
    · rintro hnil
      rw [hnil] at hb
      cases hb
  · exact ⟨List.not_mem_nil, nofun⟩

/-- **`qualifiers` is what stands behind the last bracket.** -/
theorem qualifiers_eq (m : Element) : qualifiers m = rstrip (definition.sub (behind m)) := by
  rw [qualifiers, behind]
  cases h : rfind ')' (text (m.find "argsstring")) with
  | none => rw [if_neg (rfind_eq_none.mp h)]
  | some close =>
    obtain ⟨hs, hno⟩ := rfind_eq_some h
    have hmem : ')' ∈ text (m.find "argsstring") := by
      rw [hs]
      exact List.mem_append_right _ List.mem_cons_self
    have hbehind := (last_ne hno ((text (m.find "argsstring")).take close)).2
    rw [← hs] at hbehind
    rw [if_pos hmem, hbehind]

theorem last_sub_definition : ∀ (s : Text), (definition.sub s).getLast? = s.getLast? := by
  refine Pattern.sub_induction (P := definition) rfl ?_ ?_
  · intro c cs h ih
    rw [Pattern.sub_of_none h, List.getLast?_cons, List.getLast?_cons, ih]
  · intro s r rest h ih
    obtain ⟨w, v, u, -, -, hu, rfl, rfl⟩ := definition_some h
    rw [Pattern.sub_of_some h]
    rcases hu with rfl | rfl
    · simp [List.getLast?_append, List.getLast?_cons, ih]
    · simp [List.getLast?_append, List.getLast?_cons, ih]

/-- What the line has behind the declaration: the text behind the last bracket, set apart,
and the return type. -/
theorem flat_behind (m : Element) :
    (python.flat (qualifiers m ++ answer m)).rdropWhile isSpace = trail m ++ answer m := by
  have hlast := (behind_spec m).2
  have hsub : qualifiers m = definition.sub (behind m) := by
    rw [qualifiers_eq, rstrip]
    refine Spacing.rdropWhile_space (S := python) ?_
    rw [last_sub_definition]
    exact hlast
  have hloose : ∀ b ∈ (loose (behind m)).getLast?, python.space b = false := by
    rw [last_loose]
    exact hlast
  rw [hsub, flat_sub_definition, trail, answer]
  split
  · rw [List.append_nil, List.append_nil]
    exact Spacing.rdropWhile_space (S := python) (Spacing.last_flat hloose)
  · rename_i hne
    have htype := tidy_text (m.find "type")
    set kindType := text (m.find "type")
    have hword : python.Tidy "->".toList := Spacing.tidy_word (Spacing.spaceless_of_all rfl)
    have htidy : python.Tidy ("->".toList ++ ' ' :: kindType) :=
      hword.blank (by decide) htype hne
    have hflat : python.flat (loose (behind m) ++ (arrow ++ kindType))
        = python.flat (loose (behind m)) ++ (arrow ++ kindType) :=
      Spacing.flat_append_blank (S := python) hloose htidy
        (List.append_ne_nil_of_left_ne_nil (by decide) _)
    rw [hflat]
    refine Spacing.rdropWhile_space (S := python) ?_
    rw [← List.append_assoc, List.getLast?_append_of_ne_nil _ hne]
    exact htype.last

/-! ### The line, part by part -/

theorem first_front (m : Element) (t : Text) :
    ∀ b ∈ (front m ++ t).head?, python.space b = false := by
  have hjoin : ∀ (w : Text) (ws : List Text), ∃ t, join " " (('f' :: w) :: ws) = 'f' :: t := by
    intro w ws
    cases ws with
    | nil => exact ⟨w, List.intercalate_singleton⟩
    | cons v vs =>
      refine ⟨w ++ " ".toList ++ " ".toList.intercalate (v :: vs), ?_⟩
      rw [join, List.intercalate_cons_cons]
      rfl
  obtain ⟨u, hu⟩ : ∃ u, join " " (keywords m) = 'f' :: u := by
    rw [keywords]
    split
    · exact hjoin "riend".toList _
    · exact hjoin "unc".toList _
  intro b hb
  rw [front, hu] at hb
  obtain rfl : 'f' = b := Option.some.inj hb
  decide

theorem flat_front (m : Element) (t : Text) :
    python.flat (front m ++ '(' :: t) = python.flat (front m) ++ '(' :: python.flat t :=
  Spacing.flat_append (by decide) t (front m)

theorem declared_eq (m : Element) :
    declared m = python.flat (front m) ++ '(' :: (python.flat (listed m) ++ [')']) := by
  have h := Spacing.collapse_around (S := python) (s := front m ++ '(' :: listed m) (c := ')')
    (by rw [List.append_assoc]; exact first_front m _) (by decide) []
  rw [declared, collapse, h, flat_front, List.append_assoc]
  rfl

/-- **The line is the declaration, what stands behind the last bracket of the argsstring,
and the return type.** -/
theorem line_eq (m : Element) : line m = declared m ++ (trail m ++ answer m) := by
  have h := Spacing.collapse_around (S := python) (s := front m ++ '(' :: listed m) (c := ')')
    (by rw [List.append_assoc]; exact first_front m _) (by decide) (qualifiers m ++ answer m)
  have hline : line m
      = collapse ((front m ++ '(' :: listed m) ++ ')' :: (qualifiers m ++ answer m)) := by
    rw [line, entry, signature, parameters_eq, front, answer, lead_eq]
    simp only [List.append_assoc, List.cons_append, List.nil_append]
  rw [hline, collapse, h, flat_front, declared_eq, ← flat_behind]
  simp only [List.append_assoc, List.cons_append, List.nil_append]
  rfl

theorem head_line (m : Element) : head (line m) = shown m := by
  rw [head, line_eq, shown]

theorem tidy_line (m : Element) : python.Tidy (line m) := Spacing.tidy_collapse _

/-- **Two functions have one key exactly when what is shown of them is read alike.** -/
theorem key_line_iff (m m' : Element) :
    key (line m) = key (line m') ↔ Reading.of (shown m) = Reading.of (shown m') := by
  rw [← head_line, ← head_line]
  exact key_eq_iff (tidy_line m) (tidy_line m')

/-! ### Where no separator is in the way -/

/-- What is declared before the first opening bracket. -/
def named (m : Element) : Text := (declared m).takeWhile (· ≠ '(')

/-- What stands behind the first opening bracket of the name and the template list, where
they have one, and that of the parameters. -/
def opening (m : Element) : Text :=
  ((python.flat (front m) ++ ['(']).dropWhile (· ≠ '(')).tail

/-- What is left of a default: its comma pieces behind the first. -/
def leftover (default : Text) : List Text := (erased default).tail

/-- The comma pieces of parameters behind `s`: those of each type, and behind them what is
left of the default. -/
def spread (s : Text) : List (Text × Text) → List Text
  | [] => erased s
  | [p] => erased (s ++ p.1) ++ leftover p.2
  | p :: q :: ps => erased (s ++ p.1) ++ leftover p.2 ++ spread [' '] (q :: ps)

/-- The words that count behind the last bracket of the argsstring, up to the first arrow or
colon there. -/
def objectQualifiers (m : Element) : List Text := objectWords (upTo base (upTo arrow (trail m)))

/-- Neither an arrow nor a colon with spaces around it stands in what is declared, and no
arrow is left at the end of the argsstring. -/
structure Unbroken (m : Element) : Prop where
  arrow : ¬ arrow <:+: declared m
  base : ¬ base <:+: declared m
  ended : ¬ " ->".toList <:+ trail m

/-- Every parameter has a type, and none that ends with an `=`. -/
def Typed (m : Element) : Prop := ∀ p ∈ params m, p.1 ≠ [] ∧ p.1.getLast? ≠ some '='

instance (m : Element) : Decidable (Typed m) :=
  inferInstanceAs (Decidable (∀ p ∈ params m, p.1 ≠ [] ∧ p.1.getLast? ≠ some '='))

theorem upTo_answer {m : Element} (h : ¬ " ->".toList <:+ trail m) :
    upTo arrow (trail m ++ answer m) = upTo arrow (trail m) := by
  by_cases harrow : arrow <:+: trail m
  · exact upTo_append_of_infix harrow _
  · rw [answer, upTo_of_not_infix harrow]
    split
    · rw [List.append_nil, upTo_of_not_infix harrow]
    · refine upTo_here (by decide) ?_ _
      -- an arrow that ends in `" ->"` ends with its blank
      rintro ⟨x, y, hxy⟩
      have hends : ∀ y' : Text, ' ' ∉ y' →
          x ++ " ->".toList ++ ' ' :: y' = trail m ++ ' ' :: "->".toList → False := by
        intro y' hy' heq
        obtain ⟨hx, -⟩ := eq_of_last hy' (by decide) heq
        exact h ⟨x, hx⟩
      have hshape : x ++ " ->".toList ++ ' ' :: y = trail m ++ ' ' :: "->".toList := by
        rw [List.append_assoc] at hxy ⊢
        exact hxy
      by_cases hy : ' ' ∈ y
      · obtain ⟨b, a, hrev, hb⟩ := List.eq_append_cons_of_mem (List.mem_reverse.mpr hy)
        rw [List.reverse_eq_iff, List.reverse_append, List.reverse_cons, List.append_assoc,
          List.singleton_append] at hrev
        rw [hrev, ← List.cons_append, ← List.append_assoc] at hshape
        obtain ⟨hx, -⟩ := eq_of_last (fun h => hb (List.mem_reverse.mp h)) (by decide) hshape
        refine harrow ⟨x, a.reverse, ?_⟩
        rw [← hx, List.append_assoc, List.append_assoc]
        rfl
      · exact hends y hy hshape

theorem declared_split (m : Element) : '(' ∉ named m ∧
    declared m = named m ++ '(' :: (opening m ++ python.flat (listed m) ++ [')']) := by
  have hmem : '(' ∈ python.flat (front m) ++ ['('] := by simp
  obtain ⟨name, rest, hsplit, hname⟩ := List.eq_append_cons_of_mem hmem
  have hdecl : declared m = name ++ '(' :: (rest ++ python.flat (listed m) ++ [')']) := by
    rw [declared_eq, List.append_cons, hsplit, List.append_assoc, List.append_assoc]
    rfl
  have hnamed : named m = name := by
    rw [named, hdecl]
    exact takeWhile_ne hname _
  have hopening : opening m = rest := by
    rw [opening, hsplit, dropWhile_ne hname]
    rfl
  rw [hnamed, hopening]
  exact ⟨hname, hdecl⟩

/-- **Of an unbroken declaration all of the parameter list is read.** -/
theorem reading_unbroken {m : Element} (hm : Unbroken m) : Reading.of (shown m)
    = .function (named m) (erased (opening m ++ python.flat (listed m))) (objectQualifiers m) := by
  obtain ⟨hname, hdecl⟩ := declared_split m
  generalize opening m ++ python.flat (listed m) = inside at hdecl ⊢
  have hdecl' : declared m = (named m ++ '(' :: inside) ++ [')'] := by
    rw [hdecl, List.append_assoc, List.cons_append]
  have hno : ∀ {sep : Text}, ¬ sep <:+: declared m → ¬ sep <:+: named m ++ '(' :: inside := by
    intro sep h hi
    rw [hdecl'] at h
    exact h (hi.trans (List.prefix_append _ _).isInfix)
  have hshown : shown m
      = named m ++ '(' :: (inside ++ ')' :: upTo base (upTo arrow (trail m))) := by
    rw [shown, hdecl', List.append_assoc _ [')'], List.singleton_append,
      upTo_append (by decide) (by decide) _ (hno hm.arrow), upTo_answer hm.ended,
      upTo_append (by decide) (by decide) _ (hno hm.base), List.append_assoc]
    rfl
  have hbehind : ')' ∉ upTo base (upTo arrow (trail m)) := by
    intro h
    have hmem := (upTo_starts _).subset ((upTo_starts _).subset h)
    rcases Spacing.mem_flat _ hmem with hmem | hmem
    · exact (behind_spec m).1 (mem_of_mem_loose hmem (by decide) (by decide))
    · exact absurd hmem (by decide)
  rw [hshown, Reading.of_brackets hname hbehind, objectQualifiers]

theorem key_line_iff_unbroken {m m' : Element} (hm : Unbroken m) (hm' : Unbroken m') :
    key (line m) = key (line m') ↔ named m = named m' ∧
      erased (opening m ++ python.flat (listed m))
        = erased (opening m' ++ python.flat (listed m')) ∧
      objectQualifiers m = objectQualifiers m' := by
  rw [key_line_iff, reading_unbroken hm, reading_unbroken hm', Reading.function.injEq]

/-! ### Comma pieces -/

theorem erased_comma (a b : Text) : erased (a ++ ',' :: b) = erased a ++ erased b := by
  rw [erased, List.splitOn_append_cons_self, List.map_append]
  rfl

theorem splitOn_append {a x y : Text} {ys : List Text} (ha : ',' ∉ a)
    (hx : x.splitOn ',' = y :: ys) : (a ++ x).splitOn ',' = (a ++ y) :: ys := by
  by_cases hmem : ',' ∈ x
  · obtain ⟨b, c, rfl, hb⟩ := List.eq_append_cons_of_mem hmem
    rw [List.splitOn_append_cons_self, List.splitOn_eq_singleton hb, List.singleton_append,
      List.cons.injEq] at hx
    have hab : ',' ∉ a ++ b := fun h => (List.mem_append.mp h).elim ha hb
    rw [← List.append_assoc, List.splitOn_append_cons_self, List.splitOn_eq_singleton hab,
      List.singleton_append, hx.1, hx.2]
  · rw [List.splitOn_eq_singleton hmem, List.cons.injEq] at hx
    have hax : ',' ∉ a ++ x := fun h => (List.mem_append.mp h).elim ha hmem
    rw [List.splitOn_eq_singleton hax, hx.1, hx.2]

/-- The last comma piece of a text is what grows when something is put behind it. -/
theorem splitOn_last (s : Text) : ∃ ps u, u <:+ s ∧ ∀ {x y : Text} {ys : List Text},
    x.splitOn ',' = y :: ys → (s ++ x).splitOn ',' = ps ++ (u ++ y) :: ys := by
  by_cases hs : ',' ∈ s
  · obtain ⟨b, a, hrev, hb⟩ := List.eq_append_cons_of_mem (List.mem_reverse.mpr hs)
    rw [List.reverse_eq_iff, List.reverse_append, List.reverse_cons, List.append_assoc,
      List.singleton_append] at hrev
    refine ⟨a.reverse.splitOn ',', b.reverse, ?_, ?_⟩
    · rw [hrev]
      exact (List.suffix_cons _ _).trans (List.suffix_append _ _)
    · intro x y ys hx
      have hbx := splitOn_append (fun h => hb (List.mem_reverse.mp h)) hx
      rw [hrev, List.append_assoc, List.cons_append, List.splitOn_append_cons_self, hbx]
  · exact ⟨[], s, List.suffix_rfl, fun hx => splitOn_append hs hx⟩

/-- What a default may stand behind: neither a space nor an equals sign. -/
def Ended (s : Text) : Prop := ∀ c ∈ s.getLast?, isSpace c = false ∧ c ≠ '='

theorem beforeDefault_default {u : Text} (hu : Ended u) (d : Text) :
    beforeDefault (u ++ (" = ".toList ++ d)) = beforeDefault u := by
  by_cases hmem : '=' ∈ u
  · obtain ⟨a, b, rfl, ha⟩ := List.eq_append_cons_of_mem hmem
    have hall : ∀ c ∈ a, (decide (c ≠ '=')) = true :=
      fun c hc => decide_eq_true fun h => ha (h ▸ hc)
    have hb : b ≠ [] := by
      rintro rfl
      exact (hu '=' List.getLast?_concat).2 rfl
    have hcut : ∀ e : Text, e ≠ [] → beforeDefault (a ++ '=' :: e) = rstrip a := by
      intro e he
      rw [beforeDefault, List.dropWhile_append_of_pos hall, takeWhile_ne ha, if_pos]
      have := List.length_pos_of_ne_nil he
      show 2 ≤ ('=' :: e).length
      rw [List.length_cons]
      omega
    rw [List.append_assoc, List.cons_append, hcut b hb,
      hcut _ (List.append_ne_nil_of_left_ne_nil hb _)]
  · have hno : '=' ∉ u ++ [' '] := by
      rw [List.mem_append, not_or]
      exact ⟨hmem, by decide⟩
    have hall : ∀ c ∈ u ++ [' '], (decide (c ≠ '=')) = true := fun c hc =>
      decide_eq_true fun h => hno (h ▸ hc)
    have hall' : ∀ c ∈ u, (decide (c ≠ '=')) = true := fun c hc =>
      hall c (List.mem_append_left _ hc)
    have hstrip : rstrip (u ++ [' ']) = u := by
      rw [rstrip, List.rdropWhile_concat_pos _ _ _ (by decide)]
      exact Spacing.rdropWhile_space (S := python) fun c hc => (hu c hc).1
    have hlong : u ++ (" = ".toList ++ d) = (u ++ [' ']) ++ '=' :: ' ' :: d := by
      rw [List.append_assoc]
      rfl
    have hwhole : beforeDefault u = u := by
      rw [beforeDefault, List.dropWhile_eq_nil_iff.mpr hall', if_neg (by decide)]
    rw [hlong, hwhole, beforeDefault, List.dropWhile_append_of_pos hall, takeWhile_ne hno, if_pos,
      hstrip]
    show 2 ≤ ('=' :: ' ' :: d).length
    rw [List.length_cons, List.length_cons]
    omega

/-- **A default leaves its comma pieces behind the first.** -/
theorem erased_default {s : Text} (hs : Ended s) (d : Text) :
    erased (s ++ (" = ".toList ++ d)) = erased s ++ leftover d := by
  obtain ⟨ps, u, hu, hsplit⟩ := splitOn_last s
  have hlast : Ended u := by
    intro c hc
    obtain ⟨t, rfl⟩ := hu
    refine hs c ?_
    rw [List.getLast?_append_of_ne_nil]
    · exact hc
    · rintro rfl
      cases hc
  obtain ⟨y, ys, hd⟩ := List.exists_cons_of_ne_nil (List.splitOn_ne_nil ',' d)
  have hdefault := hsplit (splitOn_append (a := " = ".toList) (by decide) hd)
  have hbare := hsplit (show ([] : Text).splitOn ',' = [] :: [] from rfl)
  rw [List.append_nil, List.append_nil] at hbare
  rw [leftover, erased, erased, erased, hdefault, hbare, hd]
  simp only [List.map_append, List.map_cons, List.map_nil, List.tail_cons, List.append_assoc,
    List.cons_append, List.nil_append, beforeDefault_default hlast]

theorem leftover_of_not_mem {d : Text} (hd : ',' ∉ d) : leftover d = [] := by
  rw [leftover, erased, List.splitOn_eq_singleton hd]
  rfl

/-! ### Parameters -/

/-- What is read out of the XML, with a type that a default can stand behind. -/
structure Plain (p : Text × Text) : Prop where
  type : python.Tidy p.1
  default : python.Tidy p.2
  typed : p.1 ≠ []
  ended : p.1.getLast? ≠ some '='

theorem Typed.plain {m : Element} (h : Typed m) : ∀ p ∈ params m, Plain p := by
  intro p hp
  obtain ⟨htyped, hended⟩ := h p hp
  obtain ⟨e, -, rfl⟩ := List.mem_map.mp hp
  exact ⟨tidy_text _, tidy_text _, htyped, hended⟩

theorem erased_unnamed {p : Text × Text} (hp : Plain p) (s : Text) :
    erased (s ++ python.flat (unnamed p)) = erased (s ++ p.1) ++ leftover p.2 := by
  rw [unnamed]
  split
  · rename_i hnil
    rw [hnil, Spacing.flat_of_flat hp.type.flat, leftover_of_not_mem List.not_mem_nil,
      List.append_nil]
  · rename_i hne
    have hequals : python.Tidy ['='] := Spacing.tidy_word (Spacing.spaceless_of_all rfl)
    have hassigned : python.Tidy (['='] ++ ' ' :: p.2) :=
      hequals.blank (List.cons_ne_nil _ _) hp.default hne
    have hwhole : python.Tidy (p.1 ++ ' ' :: (['='] ++ ' ' :: p.2)) :=
      hp.type.blank hp.typed hassigned (List.cons_ne_nil _ _)
    have hended : Ended (s ++ p.1) := by
      intro c hc
      rw [List.getLast?_append_of_ne_nil _ hp.typed] at hc
      refine ⟨hp.type.last c hc, ?_⟩
      rintro rfl
      exact hp.ended hc
    have hflat : python.flat (p.1 ++ " = ".toList ++ p.2) = p.1 ++ (" = ".toList ++ p.2) := by
      rw [List.append_assoc]
      exact Spacing.flat_of_flat hwhole.flat
    rw [hflat, ← List.append_assoc, erased_default hended]

theorem Plain.starts {p : Text × Text} (hp : Plain p) :
    unnamed p ≠ [] ∧ ∀ b ∈ (unnamed p).head?, python.space b = false := by
  obtain ⟨t, ht⟩ : ∃ t, unnamed p = p.1 ++ t := by
    rw [unnamed]
    split
    · exact ⟨[], (List.append_nil _).symm⟩
    · exact ⟨_, List.append_assoc _ _ _⟩
  rw [ht, List.head?_append_of_ne_nil _ hp.typed]
  exact ⟨List.append_ne_nil_of_left_ne_nil hp.typed _, hp.type.first⟩

theorem erased_join {x y : Text} (ys : List Text) (hy0 : y ≠ [])
    (hy : ∀ b ∈ y.head?, python.space b = false) (s : Text) :
    erased (s ++ python.flat (join ", " (x :: y :: ys)))
      = erased (s ++ python.flat x) ++ erased ([' '] ++ python.flat (join ", " (y :: ys))) := by
  have hfirst : ∀ b ∈ (join ", " (y :: ys)).head?, python.space b = false := by
    cases ys with
    | nil =>
      rw [join, List.intercalate_singleton]
      exact hy
    | cons z zs =>
      rw [join, List.intercalate_cons_cons, List.append_assoc, List.head?_append_of_ne_nil _ hy0]
      exact hy
  have hjoin : join ", " (x :: y :: ys) = x ++ ',' :: ' ' :: join ", " (y :: ys) := by
    rw [join, List.intercalate_cons_cons, List.append_assoc]
    rfl
  rw [hjoin, Spacing.flat_append (S := python) (by decide), ← List.append_assoc, erased_comma,
    Spacing.flat_cons_space (S := python) (by decide), Spacing.dropWhile_space hfirst]
  rfl

/-- **What is read of a parameter list is that of each parameter on its own.** -/
theorem erased_params {ps : List (Text × Text)} (h : ∀ p ∈ ps, Plain p) (s : Text) :
    erased (s ++ python.flat (join ", " (ps.map unnamed))) = spread s ps := by
  induction ps generalizing s with
  | nil =>
    rw [spread, List.map_nil, join, List.intercalate_nil, Spacing.flat_nil, List.append_nil]
  | cons p ps ih =>
    have hp : Plain p := h p List.mem_cons_self
    cases ps with
    | nil =>
      rw [spread, List.map_singleton, join, List.intercalate_singleton, erased_unnamed hp]
    | cons q ps =>
      obtain ⟨hne, hfirst⟩ := (h q (List.mem_cons_of_mem p List.mem_cons_self)).starts
      -- behind a comma the next parameter stands as behind a blank
      have hrest := ih (fun r hr => h r (List.mem_cons_of_mem p hr)) [' ']
      rw [List.map_cons] at hrest
      rw [spread, List.map_cons, List.map_cons, erased_join _ hne hfirst, hrest, erased_unnamed hp]

theorem key_line_iff_typed {m m' : Element} (hm : Unbroken m) (hm' : Unbroken m') (ht : Typed m)
    (ht' : Typed m') : key (line m) = key (line m') ↔ named m = named m' ∧
      spread (opening m) (params m) = spread (opening m') (params m') ∧
      objectQualifiers m = objectQualifiers m' := by
  rw [key_line_iff_unbroken hm hm', listed, listed, erased_params ht.plain, erased_params ht'.plain]

theorem spread_types {ps : List (Text × Text)} (h : ∀ p ∈ ps, ',' ∉ p.2) (s : Text) :
    spread s ps = spread s ((ps.map Prod.fst).map fun type => (type, [])) := by
  have hnil : leftover [] = [] := rfl
  induction ps generalizing s with
  | nil => rfl
  | cons p ps ih =>
    have hp := leftover_of_not_mem (h p List.mem_cons_self)
    have hrest := ih (fun q hq => h q (List.mem_cons_of_mem p hq)) [' ']
    cases ps with
    | nil => simp only [spread, List.map_cons, List.map_nil, hp, hnil]
    | cons q ps =>
      simp only [List.map_cons] at hrest
      simp only [spread, List.map_cons, hp, hnil, hrest]

/-! ### Shape is not identity -/

/-- Two declarations of one overload: they agree on the keywords, the name, the template
list, the types of the parameters and, by Doxygen's own account, on const and the ref
qualifier. -/
structure SameOverload (m m' : Element) : Prop where
  keywords : keywords m = keywords m'
  name : memberName m = memberName m'
  template : template m = template m'
  types : types m = types m'
  const : m.get "const" = m'.get "const"
  refqual : m.get "refqual" = m'.get "refqual"

theorem SameOverload.named {m m' : Element} (h : SameOverload m m') :
    named m = named m' ∧ opening m = opening m' := by
  have hfront : front m = front m' := by rw [front, front, h.keywords, h.name, h.template]
  -- an opening bracket stands behind the front in any case
  have hstop : ∀ m : Element, Surface.named m
      = (python.flat (front m) ++ ['(']).takeWhile fun d => decide (d ≠ '(') := by
    intro m
    have hmem : '(' ∈ python.flat (front m) ++ ['('] := by simp
    obtain ⟨name, rest, hsplit, hname⟩ := List.eq_append_cons_of_mem hmem
    rw [Surface.named, declared_eq, List.append_cons, hsplit, List.append_assoc,
      takeWhile_ne hname, List.cons_append, takeWhile_ne hname]
  rw [hstop, hstop, opening, opening, hfront]
  exact ⟨rfl, rfl⟩

/-- **When shape is not identity.**  Two declarations of one overload have one key exactly
when what is shown of them is read alike.  Where no separator stands in them, that is
exactly when what is left of their defaults agrees and the words that count behind the last
bracket; and where no default has a comma, exactly when these words agree. -/
theorem same_key_iff {m m' : Element} (hm : IsFunction m) (hm' : IsFunction m')
    (h : SameOverload m m') :
    ∃ e e', memberEntry m = some e ∧ memberEntry m' = some e' ∧
      (key e.2 = key e'.2 ↔ Reading.of (shown m) = Reading.of (shown m')) ∧
      (Unbroken m → Unbroken m' → Typed m → Typed m' →
        (key e.2 = key e'.2 ↔ spread (opening m) (params m) = spread (opening m) (params m') ∧
          objectQualifiers m = objectQualifiers m') ∧
        ((∀ p ∈ params m ++ params m', ',' ∉ p.2) →
          (key e.2 = key e'.2 ↔ objectQualifiers m = objectQualifiers m'))) := by
  refine ⟨_, _, memberEntry_function hm, memberEntry_function hm', ?_⟩
  dsimp only
  refine ⟨key_line_iff m m', ?_⟩
  intro hu hu' ht ht'
  obtain ⟨hname, hopening⟩ := h.named
  have hkey : key (line m) = key (line m') ↔
      spread (opening m) (params m) = spread (opening m) (params m') ∧
        objectQualifiers m = objectQualifiers m' := by
    rw [key_line_iff_typed hu hu' ht ht', ← hopening]
    exact and_iff_right hname
  refine ⟨hkey, ?_⟩
  intro hcomma
  obtain ⟨hc, hc'⟩ := List.forall_mem_append.mp hcomma
  have htypes : (params m).map Prod.fst = (params m').map Prod.fst := h.types
  rw [hkey, spread_types hc, spread_types hc', htypes]
  exact and_iff_right rfl

/-! ### Overloads -/

theorem entries_functions {ms : List Element} (hms : ∀ m ∈ ms, IsFunction m) :
    ms.filterMap memberEntry = ms.map fun m => (memberName m, line m) := by
  rw [← List.filterMap_eq_map]
  exact List.filterMap_congr fun m hm => memberEntry_function (hms m hm)

/-- The functions are all filed, each under a key of its own, exactly when no two of them
show what is read alike. -/
theorem surface_functions_iff {ms : List Element} (hne : ms ≠ [])
    (hms : ∀ m ∈ ms, IsFunction m) :
    (∃ now, surface (ms.filterMap memberEntry) [] = .ok now ∧ now.Perm (ms.map line) ∧
        (now.map key).Nodup) ↔
      ms.Pairwise fun m m' => Reading.of (shown m) ≠ Reading.of (shown m') := by
  have hkeys : ((ms.map line).map key).Nodup ↔
      ms.Pairwise fun m m' => Reading.of (shown m) ≠ Reading.of (shown m') := by
    rw [List.map_map, List.nodup_iff_pairwise_ne, List.pairwise_map]
    simp only [Function.comp_apply, ne_eq, key_line_iff]
  rw [entries_functions hms, ← hkeys]
  set entries := ms.map fun m => (memberName m, line m)
  have hlines : entries.map Prod.snd = ms.map line := by
    rw [List.map_map]
    rfl
  have hentries : entries ≠ [] := fun h => hne (List.map_eq_nil_iff.mp h)
  constructor
  · rintro ⟨now, -, hperm, hnodup⟩
    exact (hperm.map key).nodup_iff.mp hnodup
  · intro hnodup
    have hdedup : (entries ++ []).dedup = entries := by
      rw [List.append_nil]
      refine List.Nodup.dedup (List.Nodup.of_map Prod.snd ?_)
      rw [hlines]
      exact hnodup.of_map
    have hperm : ((sortedPairs (entries ++ []).dedup).map Prod.snd).Perm (ms.map line) := by
      rw [hdedup, ← hlines]
      exact (sortedPairs_perm entries).map Prod.snd
    have hnow := (hperm.map key).nodup_iff.mpr hnodup
    refine ⟨_, surface_ok_iff.mpr ⟨hentries, rfl, ?_⟩, hperm, hnow⟩
    intro x hx y hy hxy
    exact List.inj_on_of_nodup_map hnow hx hy hxy

/-- **When overloads are told apart.**  Two functions have different keys exactly when what
is shown of them is read differently; where no separator stands in them, exactly when what
is declared before the first bracket differs, or the comma pieces of the types and of what
is left of the defaults, or the words that count behind the last bracket.  And the functions
of a header are all published, each under a key of its own, exactly when no two of them are
read alike. -/
theorem different_key_iff {m m' : Element} (hm : IsFunction m) (hm' : IsFunction m') :
    (∃ e e', memberEntry m = some e ∧ memberEntry m' = some e' ∧
      (key e.2 ≠ key e'.2 ↔ Reading.of (shown m) ≠ Reading.of (shown m')) ∧
      (Unbroken m → Unbroken m' → Typed m → Typed m' → (key e.2 ≠ key e'.2 ↔
        named m ≠ named m' ∨
          spread (opening m) (params m) ≠ spread (opening m') (params m') ∨
          objectQualifiers m ≠ objectQualifiers m'))) ∧
    ∀ ms : List Element, ms ≠ [] → (∀ m ∈ ms, IsFunction m) →
      ((∃ now, surface (ms.filterMap memberEntry) [] = .ok now ∧ now.Perm (ms.map line) ∧
          (now.map key).Nodup) ↔
        ms.Pairwise fun m m' => Reading.of (shown m) ≠ Reading.of (shown m')) := by
  refine ⟨⟨_, _, memberEntry_function hm, memberEntry_function hm', ?_⟩,
    fun ms => surface_functions_iff⟩
  dsimp only
  refine ⟨not_congr (key_line_iff m m'), ?_⟩
  intro hu hu' ht ht'
  rw [ne_eq, key_line_iff_typed hu hu' ht ht', not_and_or, not_and_or]

/-! ### Where it goes wrong -/

def leaf (tag text : String) : Element := .mk tag.toList [] text.toList [] []

def memberdef (const name type args : String) (params : List (String × String)) : Element :=
  .mk "memberdef".toList
    [("kind".toList, "function".toList), ("prot".toList, "public".toList),
      ("static".toList, "no".toList), ("const".toList, const.toList)] [] []
    (leaf "type" type :: leaf "qualifiedname" name :: leaf "argsstring" args ::
      params.map fun p => .mk "param".toList [] [] []
        (if p.2 = "" then [leaf "type" p.1] else [leaf "type" p.1, leaf "defval" p.2]))

def withComma : Element := memberdef "no" "zu::f" "void" "(int n=g(1, 2))" [("int", "g(1, 2)")]

def withoutComma : Element := memberdef "no" "zu::f" "void" "(int n)" [("int", "")]

/-- `bool h() const noexcept(g())`, without the `noexcept`, and without the `const`. -/
def hiddenConst : Element := memberdef "yes" "zu::A::h" "bool" "() const noexcept(g())" []

def shownConst : Element := memberdef "yes" "zu::A::h" "bool" "() const" []

def noConst : Element := memberdef "no" "zu::A::h" "bool" "() noexcept(g())" []

def oneType : Element := memberdef "no" "zu::f" "void" "(X< (N==1)> x)" [("X< (N==1)>", "")]

def otherType : Element := memberdef "no" "zu::f" "void" "(X< (N==2)> x)" [("X< (N==2)>", "")]

theorem isFunction_withComma : IsFunction withComma := ⟨by decide, by decide, by decide⟩

theorem isFunction_withoutComma : IsFunction withoutComma := ⟨by decide, by decide, by decide⟩

theorem isFunction_oneType : IsFunction oneType := ⟨by decide, by decide, by decide⟩

theorem isFunction_otherType : IsFunction otherType := ⟨by decide, by decide, by decide⟩

theorem isFunction_hiddenConst : IsFunction hiddenConst := ⟨by decide, by decide, by decide⟩

theorem isFunction_shownConst : IsFunction shownConst := ⟨by decide, by decide, by decide⟩

theorem sameOverload_withComma : SameOverload withComma withoutComma :=
  ⟨by decide, by decide, by decide, by decide, by decide, by decide⟩

theorem sameOverload_hiddenConst : SameOverload hiddenConst shownConst :=
  ⟨by decide, by decide, by decide, by decide, by decide, by decide⟩

/-- **A change of shape that reads as one name going and another arriving**: a default with
a comma is taken away, or a `noexcept` with an expression. -/
theorem shape_mistaken_for_identity :
    [(withComma, withoutComma), (hiddenConst, shownConst)].Forall fun p =>
      IsFunction p.1 ∧ IsFunction p.2 ∧ SameOverload p.1 p.2 ∧
        ∃ e e', memberEntry p.1 = some e ∧ memberEntry p.2 = some e' ∧ key e.2 ≠ key e'.2 := by
  refine ⟨⟨isFunction_withComma, isFunction_withoutComma, sameOverload_withComma, _, _,
    memberEntry_function isFunction_withComma, memberEntry_function isFunction_withoutComma, ?_⟩,
    isFunction_hiddenConst, isFunction_shownConst, sameOverload_hiddenConst, _, _,
    memberEntry_function isFunction_hiddenConst, memberEntry_function isFunction_shownConst, ?_⟩
  · -- the default is erased up to its comma
    decide
  · -- the bracket of the `noexcept` hides the `const`
    decide

theorem same_key_withComma : ∃ e e', memberEntry withComma = some e ∧
    memberEntry withoutComma = some e' ∧
    (key e.2 = key e'.2 ↔ Reading.of (shown withComma) = Reading.of (shown withoutComma)) ∧
    (key e.2 = key e'.2 ↔ spread (opening withComma) (params withComma)
        = spread (opening withComma) (params withoutComma) ∧
      objectQualifiers withComma = objectQualifiers withoutComma) := by
  obtain ⟨e, e', he, he', hread, hspread⟩ :=
    same_key_iff isFunction_withComma isFunction_withoutComma sameOverload_withComma
  have hwith : Unbroken withComma := ⟨by decide, by decide, by decide⟩
  have hwithout : Unbroken withoutComma := ⟨by decide, by decide, by decide⟩
  exact ⟨e, e', he, he', hread, (hspread hwith hwithout (by decide) (by decide)).1⟩

/-- **Two overloads under one key**: their types agree up to an equals sign, and `surface`
stops; or the one is const before a `noexcept` with an expression, and it is dropped. -/
theorem overloads_mistaken_for_one :
    types oneType ≠ types otherType ∧ key (line oneType) = key (line otherType) ∧
    surface ([oneType, otherType].filterMap memberEntry) []
      = .error (.clash (line oneType) (line otherType)) ∧
    hiddenConst.get "const" ≠ noConst.get "const" ∧ key (line hiddenConst) = key (line noConst) ∧
    surface ([hiddenConst, noConst].filterMap memberEntry) [] = .ok [line noConst] := by
  decide

theorem different_key_oneType :
    (∃ e e', memberEntry oneType = some e ∧ memberEntry otherType = some e' ∧
      (key e.2 ≠ key e'.2 ↔ Reading.of (shown oneType) ≠ Reading.of (shown otherType)) ∧
      (key e.2 ≠ key e'.2 ↔ named oneType ≠ named otherType ∨
        spread (opening oneType) (params oneType) ≠ spread (opening otherType) (params otherType) ∨
        objectQualifiers oneType ≠ objectQualifiers otherType)) ∧
    ((∃ now, surface ([oneType, otherType].filterMap memberEntry) [] = .ok now ∧
        now.Perm ([oneType, otherType].map line) ∧ (now.map key).Nodup) ↔
      [oneType, otherType].Pairwise fun m m' => Reading.of (shown m) ≠ Reading.of (shown m')) := by
  obtain ⟨⟨e, e', he, he', hread, hspread⟩, hsurface⟩ :=
    different_key_iff isFunction_oneType isFunction_otherType
  have hone : Unbroken oneType := ⟨by decide, by decide, by decide⟩
  have hother : Unbroken otherType := ⟨by decide, by decide, by decide⟩
  have hall : ∀ m ∈ [oneType, otherType], IsFunction m :=
    List.forall_mem_cons.mpr
      ⟨isFunction_oneType, List.forall_mem_singleton.mpr isFunction_otherType⟩
  exact ⟨⟨e, e', he, he', hread, hspread hone hother (by decide) (by decide)⟩,
    hsurface _ (List.cons_ne_nil _ _) hall⟩

end ZuCpp.Surface
