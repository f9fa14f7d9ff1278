import ZuCpp.Surface.Lines

/-!
# The programs of the README

`readme/CMakeLists.txt` walks the page from fence to fence, builds every block that is a whole
program and runs it against the block under it.  `scripts/install.sh` takes one program a
language off the same page, with awk and line by line, "which is the same rule".

A page is plain lines and fenced blocks, the fence line of which is the fence and one word
(`Block.word`), and none of which is empty (`Block.filled`): the walk looks for the end of an empty
block behind it, and strips the spaces off a fence line that awk compares as it stands.

* `walk_page`: the walk reads back the blocks a page was made of.
* **What is built** (`configure_page_eq_ok_iff`): the whole programs, in the order of the page,
  each against the block under it, when there is one that says what is printed.
* **The two readers agree on a language exactly when its first block is a whole program**
  (`readers_agree_iff`).
-/

namespace ZuCpp.Readme

open Lib Surface

/-! ### `readme/CMakeLists.txt` -/

def fence : Text := "```".toList

def opening : Text := '\n' :: fence

def cmake : Spacing Char where
  space c := (9 ≤ c.toNat ∧ c.toNat ≤ 13) ∨ c.toNat = 32
  blank := ' '
  blank_space := by decide

inductive Stop
  /-- the README has a fenced block it never closes -/
  | unclosed
  /-- the README has this many fenced blocks, so this is reading the wrong file -/
  | few (count : Nat)
  /-- this block is a whole program and nothing under it says what it prints -/
  | silent (i : Nat) (language : Text)
  /-- the README has no whole program in it -/
  | barren
  deriving DecidableEq, Repr

/-- One turn of the loop: the block, its language and what is written to its file, and the
rest of the page; or nothing, where the loop ends. -/
def turn (rest : Text) : Except Stop (Option ((Text × Text) × Text)) :=
  match cut? opening rest with
  | none => .ok none
  | some (_, rest) =>
    -- without an end of the line the whole rest is the language, and stays the rest
    let (language, rest) := (cut? ['\n'] rest).getD (rest, rest)
    let language := orElse (cmake.strip language) "text".toList
    match cut? opening rest with
    | none => .error .unclosed
    | some (body, rest) => .ok (some ((language, body ++ ['\n']), rest))

theorem length_of_turn {rest behind : Text} {block : Text × Text}
    (h : turn rest = .ok (some (block, behind))) : behind.length < rest.length := by
  rw [turn] at h
  split at h
  · cases h
  · rename_i _ inner hopen
    have hinner := length_of_cut? (List.cons_ne_nil _ _) hopen
    have hline : ((cut? ['\n'] inner).getD (inner, inner)).2.length ≤ inner.length := by
      cases hcut : cut? ['\n'] inner with
      | none => exact Nat.le_refl _
      | some p => exact (length_of_cut? (List.cons_ne_nil _ _) hcut).le
    dsimp only at h
    split at h
    · cases h
    · rename_i hclose
      cases h
      have := length_of_cut? (List.cons_ne_nil _ _) hclose
      omega

/-- The loop over the page: the blocks, each with its language. -/
def walk (rest : Text) : Except Stop (List (Text × Text)) :=
  match _h : turn rest with
  | .error stop => .error stop
  | .ok none => .ok []
  | .ok (some (block, behind)) => (walk behind).map (block :: ·)
termination_by rest.length
decreasing_by exact length_of_turn _h

/-- A whole program: a block of C or C++ with an `int main` in it. -/
def IsProgram (block : Text × Text) : Prop :=
  (block.1 = "c".toList ∨ block.1 = "cpp".toList) ∧ "int main".toList <:+: block.2

instance : DecidablePred IsProgram := fun _ => inferInstanceAs (Decidable (_ ∧ _))

/-- `[A-Za-z0-9_.-]`. -/
def isLeafChar (c : Char) : Bool := c.isAlphanum || c = '_' || c = '.' || c = '-'

def leaves : Text → Text
  | [] => []
  | c :: cs =>
    let name := cs.takeWhile isLeafChar
    if c = '"' ∧ ".zu1".toList <:+ name ∧ name ≠ ".zu1".toList ∧
        (cs.dropWhile isLeafChar).head? = some '"'
    then name else leaves cs

structure Program where
  name : Text
  language : Text
  source : Text
  /-- `EXPECTED`: what the run has to print -/
  expected : Text
  /-- `LEAVES`: the file that has to be there after the run -/
  leaves : Text
  deriving DecidableEq, Repr

def program (n : Nat) (block : Text × Text) (expected : Text) : Program where
  name := "readme_".toList ++ block.1 ++ '_' :: (toString n).toList
  language := block.1
  source := block.2
  expected := expected
  leaves := leaves block.2

/-- The `foreach`, from block `i` on, with `n` programs before it. -/
def programsFrom (i n : Nat) : List (Text × Text) → Except Stop (List Program)
  | [] => .ok []
  | block :: blocks =>
    if IsProgram block then
      match blocks.head? with
      | some (language, expected) =>
        if language = "text".toList then
          (programsFrom (i + 1) (n + 1) blocks).map (program n block expected :: ·)
        else .error (.silent i block.1)
      | none => .error (.silent i block.1)
    else programsFrom (i + 1) n blocks

/-- `readme/CMakeLists.txt`: the programs of the page. -/
def configure (page : Text) : Except Stop (List Program) :=
  match walk ('\n' :: page) with
  | .error stop => .error stop
  | .ok blocks =>
    if blocks.length < 2 then .error (.few blocks.length)
    else match programsFrom 0 0 blocks with
      | .error stop => .error stop
      | .ok programs => if programs = [] then .error .barren else .ok programs

/-! ### `lift` of `scripts/install.sh` -/

def recordsFrom (line : Text) : Text → List Text
  | [] => if line = [] then [] else [line]
  | c :: cs => if c = '\n' then line :: recordsFrom [] cs else recordsFrom (line ++ [c]) cs

/-- The records of awk: the lines, and no empty one behind the last line feed. -/
def records (page : Text) : List Text := recordsFrom [] page

/-- The script: the lines that were kept, if it is `inside`, and the records to come. -/
def liftFrom (fenceLine : Text) (inside : Option (List Text)) : List Text → Text
  | [] => []
  | record :: rest =>
    if record = fenceLine then liftFrom fenceLine (some []) rest
    else match inside with
      | none => liftFrom fenceLine none rest
      | some line =>
        if record = fence then unlines line else liftFrom fenceLine (some (line ++ [record])) rest

def lift (language page : Text) : Text := liftFrom (fence ++ language) none (records page)

/-! ### Pages -/

/-- A line that is no fence. -/
def Plain (line : Text) : Prop := '\n' ∉ line ∧ ¬ fence <+: line

instance : DecidablePred Plain := fun _ => inferInstanceAs (Decidable (_ ∧ _))

structure Block where
  /-- what the fence line says, nothing over a block of output -/
  language : Text
  body : List Text
  /-- it is one word of one line, and one element of a list of CMake's -/
  word : ∀ c ∈ language, cmake.space c = false ∧ c ∉ [';', '[', ']', '\\']
  filled : body ≠ []
  plain : ∀ line ∈ body, Plain line

inductive Segment
  | prose (line : Text) (plain : Plain line)
  | block (b : Block)

def Block.lines (b : Block) : List Text := (fence ++ b.language) :: (b.body ++ [fence])

def Segment.lines : Segment → List Text
  | .prose line _ => [line]
  | .block b => b.lines

def Segment.block? : Segment → Option Block
  | .prose _ _ => none
  | .block b => some b

def page (segments : List Segment) : Text := unlines (segments.flatMap Segment.lines)

def blocks (segments : List Segment) : List Block := segments.filterMap Segment.block?

namespace Block

def read (b : Block) : Text × Text := (orElse b.language "text".toList, unlines b.body)

variable (b : Block)

theorem not_mem_language : '\n' ∉ b.language :=
  fun h => absurd (b.word _ h).1 (by decide)

theorem strip_language : cmake.strip b.language = b.language := by
  have hkeep : ∀ {s : Text}, (∀ c ∈ s, cmake.space c = false) → s.dropWhile cmake.space = s := by
    intro s hs
    cases s with
    | nil => rfl
    | cons c cs => simp [hs c List.mem_cons_self]
  rw [Spacing.strip, hkeep fun c hc => (b.word c hc).1, List.rdropWhile,
    hkeep fun c hc => (b.word c (List.mem_reverse.mp hc)).1, List.reverse_reverse]

end Block

/-! ### The walk reads a page back -/

theorem walk_eq (rest : Text) : walk rest = match turn rest with
    | .error stop => .error stop
    | .ok none => .ok []
    | .ok (some (block, behind)) => (walk behind).map (block :: ·) := by
  rw [walk]
  split <;> rename_i h <;> rw [h]

theorem unlines_led (lines : List Text) : '\n' :: unlines lines = led '\n' lines ++ ['\n'] := by
  induction lines with
  | nil => rfl
  | cons line lines ih =>
    rw [unlines_cons, ih]
    simp

theorem walk_prose {line : Text} (hline : Plain line) {s : Text} (hs : ∃ t, s = '\n' :: t) :
    walk ('\n' :: (line ++ s)) = walk s := by
  have hcut : cut? ('\n' :: fence) (led '\n' [line] ++ s)
      = (cut? ('\n' :: fence) s).map fun p => (led '\n' [line] ++ p.1, p.2) :=
    cut?_led (by decide) (by simpa) (.inr hs)
  rw [led_cons, led_nil, List.append_nil, List.cons_append] at hcut
  have hturn : turn ('\n' :: (line ++ s)) = turn s := by
    rw [turn, turn, opening, hcut]
    cases cut? ('\n' :: fence) s <;> rfl
  rw [walk_eq, hturn, ← walk_eq]

theorem turn_block (b : Block) (s : Text) :
    turn (led '\n' b.lines ++ s) = .ok (some (b.read, s)) := by
  obtain ⟨first, body, hbody⟩ := List.exists_cons_of_ne_nil b.filled
  have hplain : ∀ line ∈ first :: body, Plain line := hbody ▸ b.plain
  have hopen : led '\n' b.lines ++ s = '\n' :: (fence ++ (b.language ++ '\n' :: (first ++
      (led '\n' body ++ '\n' :: (fence ++ s))))) := by
    simp [Block.lines, hbody]
  have hline : cut? ['\n'] (b.language ++ '\n' :: (first ++ (led '\n' body ++ '\n' ::
      (fence ++ s)))) = some (b.language, first ++ (led '\n' body ++ '\n' :: (fence ++ s))) := by
    have hfeed : ∀ t : Text, cut? ['\n'] ('\n' :: t) = some ([], t) := cut?_here
    rw [cut?_skip b.not_mem_language, hfeed]
    simp
  have hclose : cut? opening (first ++ (led '\n' body ++ '\n' :: (fence ++ s)))
      = some (first ++ led '\n' body, s) := by
    rw [opening, cut?_skip (hplain first List.mem_cons_self).1,
      cut?_led (by decide) (fun l hl => hplain l (List.mem_cons_of_mem first hl)) (.inr ⟨_, rfl⟩),
      cut?_here]
    simp
  have htext : first ++ led '\n' body ++ ['\n'] = unlines b.body := by
    rw [hbody, unlines_cons, unlines_led, List.append_assoc]
  rw [turn, hopen, opening, cut?_here]
  dsimp only
  rw [hline, Option.getD_some]
  dsimp only
  rw [← opening, hclose]
  dsimp only
  rw [b.strip_language, htext]
  rfl

/-- What is read behind a page: the blocks, to the end of the text. -/
theorem walk_lines (segments : List Segment) :
    walk (led '\n' (segments.flatMap Segment.lines) ++ ['\n'])
      = .ok ((blocks segments).map Block.read) := by
  induction segments with
  | nil =>
    have hturn : turn ['\n'] = .ok none := by decide
    rw [List.flatMap_nil, led_nil, List.nil_append, walk_eq, hturn]
    rfl
  | cons segment segments ih =>
    rw [List.flatMap_cons, led_append, List.append_assoc]
    cases segment with
    | prose line hline =>
      have hstart : ∃ t, led '\n' (segments.flatMap Segment.lines) ++ ['\n'] = '\n' :: t := by
        rw [← unlines_led]
        exact ⟨_, rfl⟩
      rw [Segment.lines, led_cons, led_nil, List.append_nil, List.cons_append,
        walk_prose hline hstart, ih]
      rfl
    | block b =>
      rw [Segment.lines, walk_eq, turn_block]
      dsimp only
      rw [ih]
      rfl

/-- **The walk reads back the blocks a page was made of**, each with its language and its
lines. -/
theorem walk_page (segments : List Segment) :
    walk ('\n' :: page segments) = .ok ((blocks segments).map Block.read) := by
  rw [page, unlines_led, walk_lines]

/-! ### What is built -/

/-- Under every whole program there is a block that says what it prints. -/
def Told (blocks : List (Text × Text)) : Prop :=
  ∀ block below, block :: below <:+ blocks → IsProgram block →
    ∃ expected, below.head? = some ("text".toList, expected)

/-- The whole programs, each with the text of the block under it. -/
def pairs (blocks : List (Text × Text)) : List ((Text × Text) × Text) :=
  ((blocks.zip blocks.tail).filter fun p => IsProgram p.1).map fun p => (p.1, p.2.2)

theorem told_nil : Told [] := by
  intro block below h
  have := h.length_le
  simp at this

theorem told_cons {block : Text × Text} {blocks : List (Text × Text)} :
    Told (block :: blocks) ↔
      (IsProgram block → ∃ expected, blocks.head? = some ("text".toList, expected)) ∧
        Told blocks := by
  constructor
  · intro h
    refine ⟨h block blocks List.suffix_rfl, fun b below hb => h b below ?_⟩
    exact hb.trans (List.suffix_cons block blocks)
  · rintro ⟨hhere, hlater⟩ b below hb hprogram
    rcases List.suffix_cons_iff.mp hb with heq | hb
    · cases heq
      exact hhere hprogram
    · exact hlater b below hb hprogram

theorem pairs_of_not_program {block : Text × Text} {blocks : List (Text × Text)}
    (h : ¬ IsProgram block) : pairs (block :: blocks) = pairs blocks := by
  cases blocks with
  | nil => rfl
  | cons next blocks => simp [pairs, h]

theorem pairs_of_program {block : Text × Text} {language expected : Text}
    {blocks : List (Text × Text)} (h : IsProgram block)
    (hnext : blocks.head? = some (language, expected)) :
    pairs (block :: blocks) = (block, expected) :: pairs blocks := by
  cases blocks with
  | nil => cases hnext
  | cons next blocks =>
    cases hnext
    simp [pairs, h]

theorem pairs_fst {blocks : List (Text × Text)} (h : Told blocks) :
    (pairs blocks).map Prod.fst = blocks.filter fun b => IsProgram b := by
  induction blocks with
  | nil => rfl
  | cons block blocks ih =>
    obtain ⟨hhere, hlater⟩ := told_cons.mp h
    by_cases hprogram : IsProgram block
    · obtain ⟨expected, hnext⟩ := hhere hprogram
      rw [pairs_of_program hprogram hnext, List.map_cons, ih hlater]
      simp [hprogram]
    · rw [pairs_of_not_program hprogram, ih hlater]
      simp [hprogram]

theorem map_eq_ok {α β ε : Type*} {f : α → β} {x : Except ε α} {b : β} :
    x.map f = .ok b ↔ ∃ a, x = .ok a ∧ f a = b := by
  cases x <;> simp [Except.map]

theorem programsFrom_eq_ok_iff {blocks : List (Text × Text)} {i n : Nat} {ps : List Program} :
    programsFrom i n blocks = .ok ps ↔
      Told blocks ∧ ps = ((pairs blocks).zipIdx n).map fun p => program p.2 p.1.1 p.1.2 := by
  induction blocks generalizing i n ps with
  | nil =>
    rw [programsFrom]
    constructor
    · rintro ⟨⟩
      exact ⟨told_nil, rfl⟩
    · rintro ⟨-, rfl⟩
      rfl
  | cons block blocks ih =>
    rw [programsFrom, told_cons]
    by_cases hprogram : IsProgram block
    · rw [if_pos hprogram]
      cases hnext : blocks.head? with
      | none => simp [hprogram]
      | some next =>
        obtain ⟨language, expected⟩ := next
        dsimp only
        by_cases htext : language = "text".toList
        · rw [if_pos htext, map_eq_ok, pairs_of_program hprogram hnext]
          simp only [ih, List.zipIdx_cons, List.map_cons]
          constructor
          · rintro ⟨later, ⟨hlater, rfl⟩, rfl⟩
            exact ⟨⟨fun _ => ⟨expected, by rw [htext]⟩, hlater⟩, rfl⟩
          · rintro ⟨⟨-, hlater⟩, rfl⟩
            exact ⟨_, ⟨hlater, rfl⟩, rfl⟩
        · rw [if_neg htext]
          constructor
          · rintro ⟨⟩
          · rintro ⟨⟨hhere, -⟩, -⟩
            obtain ⟨_, heq⟩ := hhere hprogram
            cases heq
            exact absurd rfl htext
    · rw [if_neg hprogram, ih, pairs_of_not_program hprogram]
      simp [hprogram]

theorem configure_of_walk {page : Text} {blocks : List (Text × Text)} {ps : List Program}
    (h : walk ('\n' :: page) = .ok blocks) :
    configure page = .ok ps ↔
      2 ≤ blocks.length ∧ (∃ block ∈ blocks, IsProgram block) ∧ Told blocks ∧
        ps = ((pairs blocks).zipIdx 0).map fun p => program p.2 p.1.1 p.1.2 := by
  rw [configure, h]
  dsimp only
  by_cases hfew : blocks.length < 2
  · rw [if_pos hfew]
    constructor
    · rintro ⟨⟩
    · rintro ⟨hcount, -⟩
      omega
  rw [if_neg hfew]
  have hnone : ∀ ps', programsFrom 0 0 blocks = .ok ps' →
      (ps' = [] ↔ ¬ ∃ block ∈ blocks, IsProgram block) := by
    intro ps' hps'
    obtain ⟨htold, rfl⟩ := programsFrom_eq_ok_iff.mp hps'
    have hfst := pairs_fst htold
    rw [List.map_eq_nil_iff, List.zipIdx_eq_nil_iff, ← List.map_eq_nil_iff (f := Prod.fst), hfst]
    simp
  cases hps : programsFrom 0 0 blocks with
  | error stop =>
    constructor
    · rintro ⟨⟩
    · rintro ⟨-, -, htold, rfl⟩
      rw [programsFrom_eq_ok_iff.mpr ⟨htold, rfl⟩] at hps
      cases hps
  | ok ps' =>
    dsimp only
    obtain ⟨htold, hps'⟩ := programsFrom_eq_ok_iff.mp hps
    by_cases hempty : ps' = []
    · rw [if_pos hempty]
      constructor
      · rintro ⟨⟩
      · rintro ⟨-, hsome, -⟩
        exact absurd hsome ((hnone ps' hps).mp hempty)
    · rw [if_neg hempty, Except.ok.injEq]
      have hsome := not_imp_comm.mp (hnone ps' hps).mpr hempty
      constructor
      · rintro rfl
        exact ⟨by omega, hsome, htold, hps'⟩
      · rintro ⟨-, -, -, rfl⟩
        exact hps'

/-- **What is built of a page.**  The configuring succeeds exactly when the page has two blocks
at least, a whole program among them, and under every whole program a block that says what it
prints; and it builds the whole programs in their order, each with the block under it. -/
theorem configure_page_eq_ok_iff {segments : List Segment} {ps : List Program} :
    configure (page segments) = .ok ps ↔
      2 ≤ (blocks segments).length ∧ (∃ b ∈ blocks segments, IsProgram b.read) ∧
        Told ((blocks segments).map Block.read) ∧
        ps = ((pairs ((blocks segments).map Block.read)).zipIdx 0).map
          fun p => program p.2 p.1.1 p.1.2 := by
  rw [configure_of_walk (walk_page segments), List.length_map]
  simp only [List.mem_map, exists_exists_and_eq_and]

/-! ### What is lifted -/

theorem recordsFrom_line {l : Text} (hl : '\n' ∉ l) : ∀ line s : Text,
    recordsFrom line (l ++ '\n' :: s) = (line ++ l) :: recordsFrom [] s := by
  induction l with
  | nil =>
    intro line s
    simp [recordsFrom]
  | cons c l ih =>
    intro line s
    have hc : c ≠ '\n' := fun h => hl (h ▸ List.mem_cons_self)
    rw [List.cons_append, recordsFrom, if_neg hc, ih fun h => hl (List.mem_cons_of_mem c h)]
    simp

theorem records_unlines {lines : List Text} (h : ∀ l ∈ lines, '\n' ∉ l) :
    records (unlines lines) = lines := by
  induction lines with
  | nil => rfl
  | cons line lines ih =>
    rw [records, unlines_cons, recordsFrom_line (h line List.mem_cons_self), List.nil_append,
      ← records, ih fun l hl => h l (List.mem_cons_of_mem line hl)]

theorem Segment.not_mem_lines {segment : Segment} {line : Text} (h : line ∈ segment.lines) :
    '\n' ∉ line := by
  cases segment with
  | prose line' hline =>
    rw [List.mem_singleton.mp h]
    exact hline.1
  | block b =>
    have hfence : '\n' ∉ fence := by decide
    rcases List.mem_cons.mp h with rfl | h
    · exact fun hn => (List.mem_append.mp hn).elim hfence b.not_mem_language
    · rcases List.mem_append.mp h with h | h
      · exact (b.plain line h).1
      · rw [List.mem_singleton.mp h]
        exact hfence

theorem records_page (segments : List Segment) :
    records (page segments) = segments.flatMap Segment.lines := by
  refine records_unlines fun l hl => ?_
  obtain ⟨segment, -, hl⟩ := List.mem_flatMap.mp hl
  exact Segment.not_mem_lines hl

theorem Plain.ne {line : Text} (h : Plain line) (s : Text) : line ≠ fence ++ s := by
  rintro rfl
  exact h.2 (List.prefix_append fence s)

theorem Plain.ne_fence {line : Text} (h : Plain line) : line ≠ fence := by
  simpa using h.ne []

variable {language : Text}

theorem liftFrom_plain {lines : List Text} (h : ∀ l ∈ lines, Plain l) (rest : List Text) :
    liftFrom (fence ++ language) none (lines ++ rest) = liftFrom (fence ++ language) none rest := by
  induction lines with
  | nil => rfl
  | cons line lines ih =>
    rw [List.cons_append, liftFrom, if_neg ((h line List.mem_cons_self).ne language)]
    exact ih fun l hl => h l (List.mem_cons_of_mem line hl)

theorem liftFrom_kept {lines : List Text} (h : ∀ l ∈ lines, Plain l) (hlanguage : language ≠ [])
    (rest : List Text) : ∀ kept, liftFrom (fence ++ language) (some kept) (lines ++ fence :: rest)
      = unlines (kept ++ lines) := by
  have hclose : fence ≠ fence ++ language := by simpa using hlanguage.symm
  induction lines with
  | nil =>
    intro kept
    rw [List.nil_append, liftFrom, if_neg hclose]
    simp
  | cons line lines ih =>
    intro kept
    have hline := h line List.mem_cons_self
    rw [List.cons_append, liftFrom, if_neg (hline.ne language)]
    rw [if_neg hline.ne_fence, ih fun l hl => h l (List.mem_cons_of_mem line hl)]
    simp

theorem liftFrom_block (hlanguage : language ≠ []) (b : Block) (rest : List Text) :
    liftFrom (fence ++ language) none (b.lines ++ rest)
      = if b.language = language then unlines b.body
        else liftFrom (fence ++ language) none rest := by
  rw [Block.lines, List.cons_append, liftFrom, List.append_assoc, List.singleton_append]
  by_cases h : b.language = language
  · rw [if_pos h, if_pos (congrArg (fence ++ ·) h), liftFrom_kept b.plain hlanguage,
      List.nil_append]
  · have hopen : fence ++ b.language ≠ fence ++ language := by simpa using h
    have hclose : fence ≠ fence ++ language := by simpa using hlanguage.symm
    rw [if_neg h, if_neg hopen, liftFrom_plain b.plain, liftFrom, if_neg hclose]

/-- **The first block of a language is lifted**, and nothing where there is none. -/
theorem lift_page (hlanguage : language ≠ []) (segments : List Segment) :
    lift language (page segments)
      = ((blocks segments).find? fun b => b.language = language).elim []
          fun b => unlines b.body := by
  rw [lift, records_page]
  induction segments with
  | nil => rfl
  | cons segment segments ih =>
    rw [List.flatMap_cons]
    cases segment with
    | prose line hline =>
      have hlines : ∀ l ∈ [line], Plain l := by simpa using hline
      rw [Segment.lines, liftFrom_plain hlines, ih]
      rfl
    | block b =>
      rw [Segment.lines, liftFrom_block hlanguage, ih]
      by_cases h : b.language = language <;> simp [blocks, Segment.block?, h]

/-! ### The two readers -/

theorem find?_of_find? {α : Type*} {p q : α → Bool} {l : List α} {a : α} (h : l.find? q = some a)
    (hp : p a = true) : (l.filter p).find? q = some a := by
  induction l with
  | nil => cases h
  | cons b l ih =>
    by_cases hq : q b
    · rw [List.find?_cons_of_pos hq] at h
      cases h
      rw [List.filter_cons_of_pos hp, List.find?_cons_of_pos hq]
    · rw [List.find?_cons_of_neg hq] at h
      by_cases hb : p b
      · rw [List.filter_cons_of_pos hb, List.find?_cons_of_neg hq, ih h]
      · rw [List.filter_cons_of_neg hb, ih h]

theorem sources_of_configure {segments : List Segment} {ps : List Program}
    (h : configure (page segments) = .ok ps) :
    ps.map (fun p => (p.language, p.source))
      = ((blocks segments).map Block.read).filter fun b => IsProgram b := by
  obtain ⟨-, -, htold, rfl⟩ := (configure_of_walk (walk_page segments)).mp h
  have hindex := List.zipIdx_map_fst 0 (pairs ((blocks segments).map Block.read))
  rw [← pairs_fst htold, List.map_map]
  conv_rhs => rw [← hindex, List.map_map]
  rfl

theorem Block.read_language (b : Block) (h : language = "c".toList ∨ language = "cpp".toList) :
    b.read.1 = language ↔ b.language = language := by
  have htext : "text".toList ≠ language := by rcases h with rfl | rfl <;> decide
  have hnil : ([] : Text) ≠ language := by rcases h with rfl | rfl <;> decide
  rw [Block.read, orElse]
  by_cases hempty : b.language = []
  · rw [if_pos hempty, hempty]
    exact ⟨fun heq => absurd heq htext, fun heq => absurd heq hnil⟩
  · rw [if_neg hempty]

/-- **The two readers agree on a language exactly when its first block is a whole program.**  Of a
page that configures, what awk lifts for C or C++ is the first program that is built of it if
and only if the first block of the language has an `int main` in it. -/
theorem readers_agree_iff {segments : List Segment} {ps : List Program}
    (h : configure (page segments) = .ok ps)
    (hlanguage : language = "c".toList ∨ language = "cpp".toList) :
    (∃ p, ps.find? (fun p => p.language = language) = some p ∧
        lift language (page segments) = p.source) ↔
      ∃ b, (blocks segments).find? (fun b => b.language = language) = some b ∧
        "int main".toList <:+: unlines b.body := by
  have hsome : language ≠ [] := by rcases hlanguage with rfl | rfl <;> decide
  have hsources := sources_of_configure h
  have hfirst : (ps.find? fun p => p.language = language).map (fun p => (p.language, p.source))
      = (((blocks segments).map Block.read).filter fun b => IsProgram b).find?
          fun b => b.1 = language := by
    rw [← hsources, List.find?_map]
    rfl
  have hread : ((blocks segments).map Block.read).find? (fun b => b.1 = language)
      = ((blocks segments).find? fun b => b.language = language).map Block.read := by
    rw [List.find?_map]
    simp only [Function.comp_def, Block.read_language _ hlanguage]
  rw [lift_page hsome]
  constructor
  · rintro ⟨p, hp, hlift⟩
    rw [hp, Option.map_some] at hfirst
    have hprogram := List.mem_filter.mp (List.mem_of_find?_eq_some hfirst.symm)
    have hmain : "int main".toList <:+: p.source := (of_decide_eq_true hprogram.2).2
    cases hb : (blocks segments).find? fun b => b.language = language with
    | none =>
      -- nothing is lifted, and that is no program
      rw [hb, Option.elim_none] at hlift
      rw [← hlift] at hmain
      exact absurd hmain (by decide)
    | some b =>
      rw [hb, Option.elim_some] at hlift
      exact ⟨b, rfl, hlift ▸ hmain⟩
  · rintro ⟨b, hb, hmain⟩
    have hblanguage : b.language = language := by simpa using List.find?_some hb
    have hprogram : IsProgram b.read := by
      refine ⟨?_, hmain⟩
      rw [(b.read_language hlanguage).mpr hblanguage]
      exact hlanguage
    rw [hb, Option.map_some] at hread
    rw [find?_of_find? hread (decide_eq_true hprogram)] at hfirst
    obtain ⟨p, hp, hpb⟩ := Option.map_eq_some_iff.mp hfirst
    refine ⟨p, hp, ?_⟩
    rw [hb, Option.elim_some]
    exact (congrArg Prod.snd hpb).symm

def lineFirst : List Segment :=
  [.block ⟨"cpp".toList, ["conn.close();".toList], by simp [cmake], by decide, by decide +kernel⟩,
    .prose "The whole of it:".toList (by decide +kernel),
    .block ⟨"cpp".toList, ["int main();".toList], by simp [cmake], by decide, by decide +kernel⟩,
    .block ⟨[], ["ada".toList], by simp, by decide, by decide +kernel⟩]

theorem readers_agree_iff_lineFirst : ∃ ps, configure (page lineFirst) = .ok ps ∧
    ¬ ∃ p, ps.find? (fun p => p.language = "cpp".toList) = some p ∧
      lift "cpp".toList (page lineFirst) = p.source := by
  have htold : Told ((blocks lineFirst).map Block.read) := by
    refine told_cons.mpr ⟨fun h => absurd h.2 (by decide +kernel), ?_⟩
    refine told_cons.mpr ⟨fun _ => ⟨_, rfl⟩, ?_⟩
    exact told_cons.mpr ⟨fun h => absurd h.1 (by decide), told_nil⟩
  have h := (configure_of_walk (walk_page lineFirst)).mpr
    ⟨by decide, ⟨_, .tail _ (.head _), .inr rfl, by decide +kernel⟩, htold, rfl⟩
  refine ⟨_, h, fun hagree => ?_⟩
  obtain ⟨b, hb, hmain⟩ := (readers_agree_iff h (.inr rfl)).mp hagree
  cases hb
  exact absurd hmain (by decide +kernel)

end ZuCpp.Readme
