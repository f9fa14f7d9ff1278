import ZuCpp.Surface.Member

/-!
# `key`: what identifies a line

`key` recovers a declaration from a flat line: it stops at the first arrow or colon, takes
the first opening and the last closing bracket for those of the parameter list, takes out
what looks like a default and keeps three words of what stands behind.

`Reading.of` says what may be read of a text, in pieces: the parameter list falls apart at
every comma, and of each piece what stands before its first `=` is left.  **Two lines have
one key exactly when they are read alike up to their first arrow or colon** (`key_eq_iff`).
-/

namespace ZuCpp.Surface

open Lib

def defaults : Pattern Char where
  at? s := (equals? s).bind fun t =>
    if t.takeWhile (· ≠ ',') = [] then none else some ([], t.dropWhile (· ≠ ','))
  shorter {s r rest} h := by
    obtain ⟨t, ht, h⟩ := Option.bind_eq_some_iff.mp h
    have h1 := (equals?_suffix ht).length_le
    have h2 := (List.dropWhile_suffix (l := t) (· ≠ ',')).length_le
    rw [List.length_cons] at h1
    split at h
    · cases h
    · cases h
      omega

/-- The line up to the first arrow, and of that up to the first colon. -/
def head (line : Text) : Text := upTo base (upTo arrow line)

def bracketed (head : Text) (close : Nat) : Text × Text :=
  match head.findIdx? (· = '(') with
  | none => (head.dropLast, head.take close)
  | some opening => (head.take opening, (head.take close).drop (opening + 1))

/-- The words that are kept of what stands behind the parameter list. -/
def isQualifier (word : Text) : Bool :=
  word = "const".toList ∨ word = "&".toList ∨ word = "&&".toList

def kept (head : Text) (close : Nat) : List Text :=
  (split (head.drop (close + 1))).filter isQualifier

/-- `key`: what identifies a line, which is not the whole of it. -/
def key (line : Text) : Text :=
  let head := head line
  match rfind ')' head with
  | none => head
  | some close =>
    let (name, params) := bracketed head close
    let params := defaults.sub params
    collapse (name ++ '(' :: params ++ ')' :: ' ' :: join " " (kept head close))

/-! ### What a line is read as -/

/-- What a piece of a parameter list is without its default: it stops before the first
`=` that has something behind it. -/
def beforeDefault (piece : Text) : Text :=
  if 2 ≤ (piece.dropWhile (· ≠ '=')).length then rstrip (piece.takeWhile (· ≠ '=')) else piece

/-- The comma pieces of a text, each without its default. -/
def erased (s : Text) : List Text := (s.splitOn ',').map beforeDefault

/-- The words that say which object a function may be called on. -/
def objectWords (s : Text) : List Text :=
  (python.words s).filter fun w => w = "const".toList ∨ w = "&".toList ∨ w = "&&".toList

/-- What a text is read as: a function, or something else. -/
inductive Reading
  | whole (s : Text)
  | function (name : Text) (pieces words : List Text)
  deriving DecidableEq

/-- A text is cut at its first opening and its last closing bracket.  Where nothing opens,
the name is all but the last character, as a slice up to `-1` is. -/
def Reading.of (s : Text) : Reading :=
  let front := (s.rdropWhile (· ≠ ')')).dropLast
  let words := objectWords (s.rtakeWhile (· ≠ ')'))
  if ')' ∉ s then .whole s
  else if '(' ∈ s then
    .function (s.takeWhile (· ≠ '(')) (erased (front.dropWhile (· ≠ '(')).tail) words
  else .function s.dropLast (erased front) words

/-! ### Defaults are taken out piece by piece -/

theorem isSpace_comma : isSpace ',' = false := by decide

/-- The piece starts with a default: spaces, an `=`, and something behind it. -/
def Hit (p : Text) : Prop := ∃ w q, p = w ++ '=' :: q ∧ (∀ c ∈ w, isSpace c = true) ∧ q ≠ []

theorem dropWhile_spaces {w t : Text} (hw : ∀ c ∈ w, isSpace c = true) :
    (w ++ t).dropWhile isSpace = t.dropWhile isSpace := by
  rw [List.dropWhile_append, List.dropWhile_eq_nil_iff.mpr hw]
  rfl

def Boundary (t : Text) : Prop := ∀ c ∈ t.head?, c = ','

theorem takeWhile_piece {q t : Text} (hq : ',' ∉ q) (ht : Boundary t) :
    (q ++ t).takeWhile (· ≠ ',') = q ∧ (q ++ t).dropWhile (· ≠ ',') = t := by
  refine run_append (fun c hc => decide_eq_true fun h => hq (h ▸ hc)) ?_
  intro c hc
  rw [ht c hc]
  rfl

theorem defaults_hit {p t : Text} (hp : ',' ∉ p) (ht : Boundary t) (h : Hit p) :
    defaults.at? (p ++ t) = some ([], t) := by
  obtain ⟨w, q, rfl, hw, hq0⟩ := h
  have hq : ',' ∉ q := fun h => hp (List.mem_append_right _ (List.mem_cons_of_mem _ h))
  have hdrop : equals? (w ++ '=' :: q ++ t) = some (q ++ t) := by
    rw [equals?_eq_some, List.append_assoc, dropWhile_spaces hw]
    rfl
  obtain ⟨htake, hrest⟩ := takeWhile_piece hq ht
  simp only [defaults, hdrop, Option.bind_some, htake, hrest, if_neg hq0]

theorem defaults_miss {p t : Text} (ht : Boundary t) (h : ¬ Hit p) :
    defaults.at? (p ++ t) = none := by
  rw [defaults]
  dsimp only
  cases heq : equals? (p ++ t) with
  | none => rfl
  | some u =>
    rw [Option.bind_some]
    split
    · rfl
    · rename_i hu
      rw [equals?_eq_some, List.dropWhile_append] at heq
      split at heq
      · -- the piece is spaces, and no comma is an equals sign
        cases t with
        | nil => cases heq
        | cons c t =>
          obtain rfl : c = ',' := ht c rfl
          cases heq
      · obtain ⟨q, hq⟩ : ∃ q, p.dropWhile isSpace = '=' :: q ∧ u = q ++ t := by
          rename_i hne
          cases hd : p.dropWhile isSpace with
          | nil => rw [hd] at hne; exact absurd rfl hne
          | cons d q =>
            rw [hd, List.cons_append, List.cons.injEq] at heq
            exact ⟨q, by rw [heq.1], heq.2.symm⟩
        obtain ⟨hq, rfl⟩ := hq
        have hsplit := List.takeWhile_append_dropWhile (p := isSpace) (l := p)
        rw [hq] at hsplit
        refine absurd ⟨_, q, hsplit.symm, ?_, ?_⟩ h
        · exact fun c hc => List.mem_takeWhile_imp hc
        · rintro rfl
          exact hu (takeWhile_piece List.not_mem_nil ht).1

theorem beforeDefault_hit {p : Text} (h : Hit p) : beforeDefault p = [] := by
  obtain ⟨w, q, rfl, hw, hq0⟩ := h
  have hall : ∀ c ∈ w, (decide (c ≠ '=')) = true := by
    intro c hc
    refine decide_eq_true ?_
    rintro rfl
    exact absurd (hw '=' hc) (by decide)
  rw [beforeDefault, List.dropWhile_append_of_pos hall, List.takeWhile_append_of_pos hall, if_pos]
  · rw [rstrip, List.rdropWhile_eq_nil_iff]
    intro c hc
    rw [List.mem_append] at hc
    rcases hc with hc | hc
    · exact hw c hc
    · cases hc
  · have := List.length_pos_of_ne_nil hq0
    show 2 ≤ ('=' :: q).length
    rw [List.length_cons]
    omega

theorem beforeDefault_cons {c : Char} {p : Text} (h : ¬ Hit (c :: p)) :
    beforeDefault (c :: p) = c :: beforeDefault p := by
  by_cases hc : c = '='
  · subst hc
    have hp : p = [] := by
      by_contra hp
      exact h ⟨[], p, rfl, nofun, hp⟩
    rw [hp]
    decide
  · have hpos : (fun x => decide (x ≠ '=')) c = true := decide_eq_true hc
    have hdrop := List.dropWhile_cons_of_pos (p := fun x => decide (x ≠ '=')) (l := p) hpos
    have htake := List.takeWhile_cons_of_pos (p := fun x => decide (x ≠ '=')) (l := p) hpos
    rw [beforeDefault, beforeDefault, hdrop, htake]
    split
    · rename_i hlen
      refine rdropWhile_cons ?_
      -- the default would start at `c`
      intro hall
      cases hd : p.dropWhile fun x => decide (x ≠ '=') with
      | nil =>
        rw [hd] at hlen
        exact absurd hlen (by decide)
      | cons d q =>
        obtain rfl : d = '=' := by
          have := List.head?_dropWhile_not (fun x => decide (x ≠ '=')) p
          rw [hd] at this
          simpa using this
        refine h ⟨c :: p.takeWhile fun x => decide (x ≠ '='), q, ?_, hall, ?_⟩
        · rw [List.cons_append, ← hd, List.takeWhile_append_dropWhile]
        · rintro rfl
          rw [hd] at hlen
          exact absurd hlen (by decide)
    · rfl

theorem sub_defaults_piece {p t : Text} (hp : ',' ∉ p) (ht : Boundary t) :
    defaults.sub (p ++ t) = beforeDefault p ++ defaults.sub t := by
  induction p with
  | nil => rfl
  | cons c p ih =>
    by_cases h : Hit (c :: p)
    · rw [Pattern.sub_of_some (defaults_hit hp ht h), beforeDefault_hit h]
    · have hsub : defaults.sub (c :: p ++ t) = c :: defaults.sub (p ++ t) :=
        Pattern.sub_of_none (defaults_miss ht h)
      rw [hsub, beforeDefault_cons h, ih fun hc => hp (List.mem_cons_of_mem c hc)]
      rfl

theorem sub_defaults_pieces {ps : List Text} (h : ∀ p ∈ ps, ',' ∉ p) :
    defaults.sub ([','].intercalate ps) = [','].intercalate (ps.map beforeDefault) := by
  induction ps with
  | nil => rfl
  | cons p ps ih =>
    have hp : ',' ∉ p := h p List.mem_cons_self
    have hrest := ih fun r hr => h r (List.mem_cons_of_mem p hr)
    cases ps with
    | nil =>
      have hpiece := sub_defaults_piece (t := []) hp nofun
      rw [List.append_nil, Pattern.sub_nil, List.append_nil] at hpiece
      rw [List.map_singleton, List.intercalate_singleton, List.intercalate_singleton, hpiece]
    | cons q ps =>
      have hcomma : ∀ s : Text, defaults.sub (',' :: s) = ',' :: defaults.sub s := fun s =>
        Pattern.sub_of_none rfl
      have hbound : Boundary (',' :: [','].intercalate (q :: ps)) := by
        intro c hc
        exact (Option.some.inj hc).symm
      rw [List.map_cons, List.map_cons, List.intercalate_cons_cons, List.intercalate_cons_cons,
        List.append_assoc, List.append_assoc, List.singleton_append, List.singleton_append,
        sub_defaults_piece hp hbound, hcomma, hrest, List.map_cons]

/-- **The defaults are taken out of each comma piece on its own.** -/
theorem sub_defaults (s : Text) :
    defaults.sub s = [','].intercalate (erased s) := by
  rw [erased, ← sub_defaults_pieces fun p hp => not_mem_piece hp, List.intercalate_splitOn]

/-! ### The brackets -/

theorem rfind_append {c : Char} (a : Text) {b : Text} (hb : c ∉ b) :
    rfind c (a ++ c :: b) = some a.length := by
  have hno : b.reverse.findIdx? (fun d => decide (d = c)) = none := by
    rw [List.findIdx?_eq_none_iff]
    intro d hd
    rw [List.mem_reverse] at hd
    exact decide_eq_false fun h => hb (h ▸ hd)
  rw [rfind, List.reverse_append, List.reverse_cons, List.append_assoc, List.findIdx?_append, hno,
    List.singleton_append, List.findIdx?_cons, decide_eq_true rfl]
  simp only [if_true, Option.map_some, Option.none_or, List.length_reverse, List.length_append,
    List.length_cons, Option.some.injEq]
  omega

theorem rfind_eq_none {c : Char} {s : Text} : rfind c s = none ↔ c ∉ s := by
  rw [rfind, Option.map_eq_none_iff, List.findIdx?_eq_none_iff]
  simp only [List.mem_reverse, decide_eq_false_iff_not]
  exact ⟨fun h hc => h c hc rfl, fun h d hd hdc => h (hdc ▸ hd)⟩

theorem rfind_eq_some {c : Char} {s : Text} {k : Nat} (h : rfind c s = some k) :
    s = s.take k ++ c :: s.drop (k + 1) ∧ c ∉ s.drop (k + 1) := by
  have hmem : c ∈ s.reverse := by
    rw [List.mem_reverse]
    by_contra hno
    rw [rfind_eq_none.mpr hno] at h
    cases h
  obtain ⟨b, a, hs, hb⟩ := List.eq_append_cons_of_mem hmem
  rw [List.reverse_eq_iff, List.reverse_append, List.reverse_cons, List.append_assoc,
    List.singleton_append] at hs
  have hb' : c ∉ b.reverse := fun hc => hb (List.mem_reverse.mp hc)
  rw [hs, rfind_append _ hb', Option.some.injEq] at h
  subst h
  rw [hs]
  have hdrop : (a.reverse ++ c :: b.reverse).drop (a.reverse.length + 1) = b.reverse := by
    rw [List.drop_append, List.drop_eq_nil_of_le (Nat.le_succ _), List.nil_append,
      Nat.add_sub_cancel_left, List.drop_succ_cons, List.drop_zero]
  rw [List.take_left, hdrop]
  exact ⟨rfl, hb'⟩

theorem bracketed_append {a b : Text} (ha : '(' ∉ a) (close : Nat) :
    bracketed (a ++ '(' :: b) close = (a, ((a ++ '(' :: b).take close).drop (a.length + 1)) := by
  have hno : a.findIdx? (fun d => decide (d = '(')) = none := by
    rw [List.findIdx?_eq_none_iff]
    exact fun d hd => decide_eq_false fun h => ha (h ▸ hd)
  have hfind : (a ++ '(' :: b).findIdx? (fun d => decide (d = '(')) = some a.length := by
    rw [List.findIdx?_append, hno, List.findIdx?_cons, decide_eq_true rfl]
    simp
  rw [bracketed, hfind]
  dsimp only
  rw [List.take_left]

theorem bracketed_eq {s : Text} (h : '(' ∈ s) (close : Nat) : bracketed s close
    = (s.takeWhile (· ≠ '('), ((s.take close).dropWhile (· ≠ '(')).tail) := by
  obtain ⟨a, b, rfl, ha⟩ := List.eq_append_cons_of_mem h
  rw [bracketed_append ha, takeWhile_ne ha, Prod.mk.injEq]
  refine ⟨rfl, ?_⟩
  by_cases hclose : close ≤ a.length
  · -- the bracket opens behind the last that is closed
    have hno : ∀ c ∈ a.take close, (decide (c ≠ '(')) = true := fun c hc =>
      decide_eq_true fun hc' => ha (hc' ▸ List.mem_of_mem_take hc)
    have hshort : ((a ++ '(' :: b).take close).length ≤ a.length + 1 := by
      rw [List.length_take]
      omega
    rw [List.drop_eq_nil_of_le hshort, List.take_append_of_le_length hclose,
      List.dropWhile_eq_nil_iff.mpr hno]
    rfl
  · obtain ⟨n, rfl⟩ := Nat.exists_eq_add_of_lt (Nat.lt_of_not_le hclose)
    have htake : (a ++ '(' :: b).take (a.length + n + 1) = a ++ '(' :: b.take n := by
      rw [Nat.add_assoc, List.take_append, List.take_of_length_le (Nat.le_add_right _ _),
        Nat.add_sub_cancel_left, List.take_succ_cons]
    rw [htake, dropWhile_ne ha, List.tail_cons, List.drop_append,
      List.drop_eq_nil_of_le (Nat.le_succ _), List.nil_append, Nat.add_sub_cancel_left,
      List.drop_succ_cons, List.drop_zero]

theorem kept_eq (s : Text) (close : Nat) : kept s close = objectWords (s.drop (close + 1)) := by
  rw [kept, objectWords, split]
  refine List.filter_congr fun w _ => ?_
  simp [isQualifier]

theorem Reading.of_eq {s : Text} {close : Nat} (h : rfind ')' s = some close) :
    Reading.of s
      = .function (bracketed s close).1 (erased (bracketed s close).2) (kept s close) := by
  obtain ⟨hs, hno⟩ := rfind_eq_some h
  have hmem : ')' ∈ s := by
    rw [hs]
    exact List.mem_append_right _ List.mem_cons_self
  obtain ⟨hfront, hbehind⟩ := last_ne hno (s.take close)
  rw [← hs] at hfront hbehind
  rw [Reading.of, hfront, hbehind, List.dropLast_concat, kept_eq, if_neg (not_not.mpr hmem)]
  split
  · rename_i hopen
    rw [bracketed_eq hopen]
  · rename_i hopen
    have hfind : s.findIdx? (fun d => decide (d = '(')) = none := by
      rw [List.findIdx?_eq_none_iff]
      exact fun d hd => decide_eq_false fun hdc => hopen (hdc ▸ hd)
    rw [bracketed, hfind]

theorem not_mem_bracketed (head : Text) (close : Nat) : '(' ∉ (bracketed head close).1 := by
  by_cases h : '(' ∈ head
  · obtain ⟨a, b, rfl, ha⟩ := List.eq_append_cons_of_mem h
    rw [bracketed_append ha]
    exact ha
  · have hno : head.findIdx? (fun d => decide (d = '(')) = none := by
      rw [List.findIdx?_eq_none_iff]
      exact fun d hd => decide_eq_false fun hdc => h (hdc ▸ hd)
    rw [bracketed, hno]
    exact fun hc => h (List.mem_of_mem_dropLast hc)

theorem bracketed_parts (head : Text) (close : Nat) :
    (bracketed head close).1 <+: head ∧ (bracketed head close).2 <:+: head := by
  rw [bracketed]
  split
  · exact ⟨List.dropLast_prefix head, (List.take_prefix close head).isInfix⟩
  · exact ⟨List.take_prefix _ head,
      (List.drop_suffix _ _).isInfix.trans (List.take_prefix close head).isInfix⟩

/-! ### The key says what was read -/

def Reading.key : Reading → Text
  | whole head => head
  | function name pieces words =>
    name ++ '(' :: [','].intercalate pieces ++ ')' :: [' '].intercalate ([] :: words)

/-- What a line can be read as. -/
def Reading.Good : Reading → Prop
  | whole head => ')' ∉ head
  | function name pieces words => '(' ∉ name ∧ pieces ≠ [] ∧ (∀ p ∈ pieces, ',' ∉ p) ∧
      ∀ w ∈ words, ' ' ∉ w ∧ ')' ∉ w

theorem beforeDefault_starts (p : Text) : beforeDefault p <+: p := by
  rw [beforeDefault]
  split
  · exact (List.rdropWhile_prefix _ _).trans (List.takeWhile_prefix _)
  · exact List.prefix_rfl

theorem of_isQualifier {w : Text} (h : isQualifier w = true) :
    w ≠ [] ∧ (∀ c ∈ w, isSpace c = false) ∧ ' ' ∉ w ∧ ')' ∉ w := by
  rw [isQualifier, decide_eq_true_eq] at h
  rcases h with rfl | rfl | rfl
  · exact ⟨by decide, Spacing.spaceless_of_all (S := python) rfl, by decide, by decide⟩
  · exact ⟨by decide, Spacing.spaceless_of_all (S := python) rfl, by decide, by decide⟩
  · exact ⟨by decide, Spacing.spaceless_of_all (S := python) rfl, by decide, by decide⟩

theorem good_reading (s : Text) : (Reading.of s).Good := by
  cases h : rfind ')' s with
  | none =>
    have hno := rfind_eq_none.mp h
    rw [Reading.of, if_pos hno]
    exact hno
  | some close =>
    rw [Reading.of_eq h]
    refine ⟨not_mem_bracketed _ _, ?_, ?_, ?_⟩
    · rw [erased, ne_eq, List.map_eq_nil_iff]
      exact List.splitOn_ne_nil _ _
    · intro p hp
      obtain ⟨q, hq, rfl⟩ := List.mem_map.mp hp
      exact fun hc => not_mem_piece hq ((beforeDefault_starts q).subset hc)
    · intro w hw
      exact (of_isQualifier (List.mem_filter.mp hw).2).2.2

theorem flat_params {s : Text} (hs : python.Flat s) :
    python.Flat ([','].intercalate (erased s)) := by
  have hcomma : python.space ',' = false := isSpace_comma
  rw [Spacing.flat_intercalate_iff hcomma]
  intro p hp
  obtain ⟨q, hq, rfl⟩ := List.mem_map.mp hp
  have hjoin : [','].intercalate (s.splitOn ',') = s := List.intercalate_splitOn ','
  rw [← hjoin, Spacing.flat_intercalate_iff hcomma] at hs
  exact (hs q hq).part (beforeDefault_starts q).isInfix

theorem tidy_brackets {name inside : Text} (hname : python.Flat name)
    (hfirst : ∀ b ∈ name.head?, isSpace b = false) (hinside : python.Flat inside) :
    python.Tidy (name ++ '(' :: inside ++ [')']) := by
  refine ⟨(hname.around hinside (by decide)).around Spacing.Flat.nil (by decide), ?_, ?_⟩
  · intro b hb
    cases name with
    | nil =>
      obtain rfl : '(' = b := Option.some.inj hb
      decide
    | cons d ds => exact hfirst b hb
  · intro b hb
    rw [List.getLast?_append_cons] at hb
    obtain rfl : ')' = b := Option.some.inj hb
    decide

/-- **The key of a tidy line says what is read of it up to the first arrow or colon, and
nothing else.** -/
theorem key_eq_reading {line : Text} (hl : python.Tidy line) :
    key line = (Reading.of (head line)).key := by
  have hstarts : head line <+: line := (upTo_starts _).trans (upTo_starts line)
  rw [key]
  dsimp only
  split
  · rename_i h
    rw [Reading.of, if_pos (rfind_eq_none.mp h)]
    rfl
  · rename_i close h
    rw [Reading.of_eq h]
    obtain ⟨hname, hparams⟩ := bracketed_parts (head line) close
    rw [sub_defaults]
    dsimp only [Reading.key]
    set name := (bracketed (head line) close).1
    set inside := [','].intercalate (erased (bracketed (head line) close).2)
    have hinside : python.Flat inside := flat_params (hl.flat.part (hparams.trans hstarts.isInfix))
    have hflat : python.Flat name := hl.flat.part (hname.trans hstarts).isInfix
    have hfirst : ∀ b ∈ name.head?, isSpace b = false := by
      obtain ⟨t, ht⟩ := hname.trans hstarts
      intro b hb
      apply hl.first
      rw [← ht, List.head?_append, hb]
      rfl
    have hne : name ++ '(' :: inside ++ [')'] ≠ [] :=
      List.append_ne_nil_of_right_ne_nil _ (List.cons_ne_nil _ _)
    have hwords : ∀ w ∈ kept (head line) close, w ≠ [] ∧ ∀ c ∈ w, isSpace c = false := fun w hw =>
      ⟨(of_isQualifier (List.mem_filter.mp hw).2).1, (of_isQualifier (List.mem_filter.mp hw).2).2.1⟩
    have hcollapse := Spacing.collapse_words (tidy_brackets hflat hfirst hinside) hne hwords
    rw [List.append_assoc _ [')'], List.append_assoc _ [')']] at hcollapse
    exact hcollapse

theorem not_mem_intercalate {c d : Char} (hcd : c ≠ d) {ws : List Text} (h : ∀ w ∈ ws, c ∉ w) :
    c ∉ [d].intercalate ws := by
  induction ws with
  | nil => exact List.not_mem_nil
  | cons w ws ih =>
    have hrest := ih fun u hu => h u (List.mem_cons_of_mem w hu)
    cases ws with
    | nil =>
      rw [List.intercalate_singleton]
      exact h w List.mem_cons_self
    | cons v ws =>
      rw [List.intercalate_cons_cons, List.append_assoc, List.singleton_append, List.mem_append,
        List.mem_cons, not_or, not_or]
      exact ⟨h w List.mem_cons_self, hcd, hrest⟩

theorem Reading.key_injective {r r' : Reading} (hr : r.Good) (hr' : r'.Good)
    (h : r.key = r'.key) : r = r' := by
  cases r with
  | whole line =>
    cases r' with
    | whole line' => exact congrArg _ h
    | function name pieces words =>
      have hmem : ')' ∈ (Reading.whole line).key := by
        rw [h]
        exact List.mem_append_right _ List.mem_cons_self
      exact absurd hmem hr
  | function name pieces words =>
    cases r' with
    | whole line =>
      have hmem : ')' ∈ (Reading.whole line).key := by
        rw [← h]
        exact List.mem_append_right _ List.mem_cons_self
      exact absurd hmem hr'
    | function name' pieces' words' =>
      obtain ⟨hname, hpieces0, hpieces, hwords⟩ := hr
      obtain ⟨hname', hpieces0', hpieces', hwords'⟩ := hr'
      have hbehind : ∀ {ws : List Text}, (∀ w ∈ ws, ' ' ∉ w ∧ ')' ∉ w) →
          ')' ∉ [' '].intercalate ([] :: ws) := by
        intro ws hws
        refine not_mem_intercalate (by decide) (List.forall_mem_cons.mpr ⟨List.not_mem_nil, ?_⟩)
        exact fun w hw => (hws w hw).2
      have hspaces : ∀ {ws : List Text}, (∀ w ∈ ws, ' ' ∉ w ∧ ')' ∉ w) →
          ∀ w ∈ [] :: ws, ' ' ∉ w := by
        intro ws hws
        exact List.forall_mem_cons.mpr ⟨List.not_mem_nil, fun w hw => (hws w hw).1⟩
      obtain ⟨hfront, hback⟩ := eq_of_last (hbehind hwords) (hbehind hwords') h
      obtain ⟨rfl, hinside⟩ := eq_of_first hname hname' hfront
      have h1 := congrArg (List.splitOn ',') hinside
      rw [List.splitOn_intercalate _ hpieces hpieces0,
        List.splitOn_intercalate _ hpieces' hpieces0'] at h1
      have h2 := congrArg (List.splitOn ' ') hback
      rw [List.splitOn_intercalate _ (hspaces hwords) (List.cons_ne_nil _ _),
        List.splitOn_intercalate _ (hspaces hwords') (List.cons_ne_nil _ _)] at h2
      rw [h1, (List.cons.inj h2).2]

/-- **Two lines have one key exactly when they are read alike.** -/
theorem key_eq_iff {line line' : Text} (hl : python.Tidy line) (hl' : python.Tidy line') :
    key line = key line' ↔ Reading.of (head line) = Reading.of (head line') := by
  rw [key_eq_reading hl, key_eq_reading hl']
  exact ⟨Reading.key_injective (good_reading _) (good_reading _), congrArg Reading.key⟩

/-- What a text is read as whose first and last brackets are known. -/
theorem Reading.of_brackets {name inside behind : Text} (hname : '(' ∉ name)
    (hbehind : ')' ∉ behind) : Reading.of (name ++ '(' :: (inside ++ ')' :: behind))
      = .function name (erased inside) (objectWords behind) := by
  set s := name ++ '(' :: (inside ++ ')' :: behind)
  have hlast : s = (name ++ '(' :: inside) ++ ')' :: behind := by
    rw [List.append_assoc]
    rfl
  have hclose : rfind ')' s = some (name ++ '(' :: inside).length := by
    rw [hlast, rfind_append _ hbehind]
  have hbehind : s.drop ((name ++ '(' :: inside).length + 1) = behind := by
    rw [hlast, List.drop_append, List.drop_eq_nil_of_le (Nat.le_succ _), List.nil_append,
      Nat.add_sub_cancel_left, List.drop_succ_cons, List.drop_zero]
  have hopen : '(' ∈ s := List.mem_append_right _ List.mem_cons_self
  have htake : s.take (name ++ '(' :: inside).length = name ++ '(' :: inside := by
    rw [hlast, List.take_left]
  rw [Reading.of_eq hclose, kept_eq, hbehind, bracketed_eq hopen, htake, dropWhile_ne hname,
    takeWhile_ne hname]
  rfl

end ZuCpp.Surface
