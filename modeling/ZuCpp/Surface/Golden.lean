import ZuCpp.Reference
import ZuCpp.Lib.Run

/-!
# The file the surface is written down in

`--update` writes the published lines to `api/surface.txt`, and without it they are compared
with what is there.  What is written is read back line by line (`splitlines_written`), so
the file never has two lines of one key, and the check can be trusted.

Over whole runs, the script and its file are a memory: **a check passes exactly when the
header publishes what it did at the last update** (`lifecycle`), whatever was edited and run
in between.
-/

namespace ZuCpp.Surface

open Lib

/-! ### The script -/

/-- What the script reads: the Doxyfile, the header it names, and the XML that Doxygen makes of
the two, where it runs through. -/
structure Sources where
  doxyfile : Text
  header : Text
  xml : Option Xml

/-- The sources, and what is in `api/surface.txt`, where there is such a file. -/
structure Tree where
  sources : Sources
  golden : Option Text

inductive Mode
  | update
  | check
  deriving DecidableEq, Repr

def mode (argv : List Text) : Option Mode :=
  if argv.length ≠ 2 ∧ argv.length ≠ 3 ∨ argv.length = 3 ∧ argv[2]? ≠ some "--update".toList then
    none
  else if argv.length = 3 then some .update
  else some .check

def written (now : List Text) : Text := join "\n" now ++ ['\n']

def runMain (W : WordChars) (argv : List Text) (t : Tree) : Nat × Tree :=
  match mode argv with
  | none => (2, t)
  | some m =>
    match Reference.settings W t.sources.doxyfile with
    | .error _ => (1, t)
    | .ok _ =>
      match t.sources.xml with
      | none => (1, t)
      | some xml =>
        match m with
        | .check =>
          (main (xml.found (undefined W t.sources.header)) (formatters t.sources.header)
            t.golden, t)
        | .update =>
          match publish W xml t.sources.header with
          | .error _ => (1, t)
          | .ok now => (0, { t with golden := some (written now) })

/-- What happens to a tree: the sources are edited, or the script is run and exits. -/
inductive Event
  | edit (sources : Sources)
  | run (argv : List Text) (code : Nat)

def step (W : WordChars) (t : Tree) : Event → Option Tree
  | .edit sources => some { t with sources := sources }
  | .run argv code => if (runMain W argv t).1 = code then some (runMain W argv t).2 else none

/-! ### What it is for -/

/-- A memory of what was published: what is published now, where that can be told, and what
was at the last update. -/
structure Memory where
  now : Option (Finset Text)
  kept : Option (Finset Text)

def Sources.lines (W : WordChars) (s : Sources) : Option (Finset Text) :=
  match Reference.settings W s.doxyfile, s.xml with
  | .ok _, some xml =>
    match publish W xml s.header with
    | .ok now => some now.toFinset
    | .error _ => none
  | _, _ => none

/-- What a memory exits with and what it remembers then. -/
def Memory.run (m : Memory) : Option Mode → Nat × Memory
  | none => (2, m)
  | some .update =>
    match m.now with
    | none => (1, m)
    | some now => (0, { m with kept := some now })
  | some .check => (if m.now.isSome ∧ m.now = m.kept then 0 else 1, m)

def Memory.step (W : WordChars) (m : Memory) : Event → Option Memory
  | .edit sources => some { m with now := sources.lines W }
  | .run argv code => if (m.run (mode argv)).1 = code then some (m.run (mode argv)).2 else none

def Tree.view (W : WordChars) (t : Tree) : Memory where
  now := t.sources.lines W
  kept := t.golden.map fun content => (splitlines content).toFinset

/-- No two lines of the file have one key. -/
def Tree.Sound (t : Tree) : Prop := ∀ content ∈ t.golden, Distinct (splitlines content)

/-! ### The file is read back -/

theorem oneLine_publish {W : WordChars} {xml : Xml} {header : Text} {now : List Text}
    (h : publish W xml header = .ok now) : ∀ l ∈ now, OneLine l := by
  intro l hl
  obtain ⟨p, hp, rfl⟩ := (mem_surface_iff h l).mp hl
  have hled : ∃ w, Led w p := by
    rcases List.mem_append.mp hp with hp | hp
    · exact (led_found hp).imp fun _ => And.left
    · obtain ⟨_, -, type, -, rfl⟩ := mem_formatters.mp hp
      exact ⟨_, led_formatterLine type⟩
  obtain ⟨_, kind, name, tail, _, rfl, -⟩ := hled
  exact oneLine_collapse _

theorem publish_ne_nil {W : WordChars} {xml : Xml} {header : Text} {now : List Text}
    (h : publish W xml header = .ok now) : now ≠ [] := by
  obtain ⟨p, hp⟩ := List.exists_mem_of_ne_nil _ (surface_ok_iff.mp h).1
  exact List.ne_nil_of_mem ((mem_surface_iff h p.2).mpr ⟨p, List.mem_append_left _ hp, rfl⟩)

/-- **What is written is read back**, line by line. -/
theorem splitlines_written {W : WordChars} {xml : Xml} {header : Text} {now : List Text}
    (h : publish W xml header = .ok now) : splitlines (written now) = now := by
  rw [written, join_unlines (publish_ne_nil h), splitlines_unlines (oneLine_publish h)]

/-! ### One step -/

/-- Of two sets of lines without two of one key, the check passes on the same set. -/
theorem main_eq_zero_iff_of_distinct {found formatters : List (Text × Text)} {now : List Text}
    (h : surface found formatters = .ok now) {content : Text}
    (hwas : Distinct (splitlines content)) :
    main found formatters (some content) = 0 ↔ now.toFinset = (splitlines content).toFinset := by
  have hnow : Distinct now := (surface_ok_iff.mp h).2.2
  rw [main_eq_zero_iff h, lastOf_eq_iff hnow, Finset.ext_iff]
  refine forall_congr' fun line => ?_
  rw [List.mem_toFinset, List.mem_toFinset]
  refine iff_congr Iff.rfl ?_
  exact ⟨fun hl => (lastOf_some key hl).1, lastOf_of_distinct key hwas⟩

theorem main_of_error {found formatters : List (Text × Text)} {stop : Stop}
    (h : surface found formatters = .error stop) (golden : Option Text) :
    main found formatters golden = 1 := by
  rw [main, h]

/-- The check passes exactly when the set of the lines is that of the file. -/
theorem main_eq_ite {found formatters : List (Text × Text)} {now : List Text}
    (h : surface found formatters = .ok now) {golden : Option Text}
    (hgolden : ∀ content ∈ golden, Distinct (splitlines content)) :
    main found formatters golden =
      if some now.toFinset = golden.map fun content => (splitlines content).toFinset
      then 0 else 1 := by
  cases golden with
  | none =>
    rw [main, h]
    rfl
  | some content =>
    have hzero := main_eq_zero_iff_of_distinct h (hgolden content rfl)
    have hone : main found formatters (some content) = 0
        ∨ main found formatters (some content) = 1 := by
      rw [main, h]
      dsimp only
      split
      · exact Or.inl rfl
      · exact Or.inr rfl
    split
    · rename_i heq
      exact hzero.mpr (Option.some.inj heq)
    · rename_i hne
      exact hone.resolve_left fun h0 => hne (congrArg some (hzero.mp h0))

structure Sources.Reads (s : Sources) (W : WordChars) (xml : Xml) (now : List Text) : Prop where
  settings : ∃ found, Reference.settings W s.doxyfile = .ok found
  written : s.xml = some xml
  published : publish W xml s.header = .ok now

theorem lines_of_reads {W : WordChars} {s : Sources} {xml : Xml} {now : List Text}
    (h : s.Reads W xml now) : s.lines W = some now.toFinset := by
  obtain ⟨⟨found, hfound⟩, hxml, hnow⟩ := h
  rw [Sources.lines, hfound, hxml]
  dsimp only
  rw [hnow]

theorem lines_of_unread {W : WordChars} {s : Sources} (h : ∀ xml now, ¬ s.Reads W xml now) :
    s.lines W = none := by
  rw [Sources.lines]
  split
  · rename_i found xml hfound hxml
    split
    · rename_i now hnow
      exact absurd ⟨⟨found, hfound⟩, hxml, hnow⟩ (h xml now)
    · rfl
  · rfl

/-- Where the sources cannot be read the script stops before it looks at the file. -/
theorem runMain_of_unread {W : WordChars} {t : Tree} (h : ∀ xml now, ¬ t.sources.Reads W xml now)
    {argv : List Text} {m : Mode} (hm : mode argv = some m) : runMain W argv t = (1, t) := by
  rw [runMain, hm]
  dsimp only
  split
  · rfl
  rename_i found hfound
  split
  · rfl
  rename_i xml hxml
  cases hnow : publish W xml t.sources.header with
  | ok now => exact absurd ⟨⟨found, hfound⟩, hxml, hnow⟩ (h xml now)
  | error stop =>
    cases m with
    | update => rfl
    | check =>
      dsimp only
      rw [main_of_error hnow]

theorem runMain_update {W : WordChars} {t : Tree} {xml : Xml} {now : List Text}
    (h : t.sources.Reads W xml now) {argv : List Text} (hm : mode argv = some .update) :
    runMain W argv t = (0, { t with golden := some (written now) }) := by
  obtain ⟨⟨found, hfound⟩, hxml, hnow⟩ := h
  rw [runMain, hm]
  dsimp only
  rw [hfound, hxml]
  dsimp only
  rw [hnow]

theorem runMain_check {W : WordChars} {t : Tree} {xml : Xml} {now : List Text}
    (h : t.sources.Reads W xml now) (ht : t.Sound) {argv : List Text}
    (hm : mode argv = some .check) :
    runMain W argv t = (if some now.toFinset = (t.view W).kept then 0 else 1, t) := by
  obtain ⟨⟨found, hfound⟩, hxml, hnow⟩ := h
  rw [runMain, hm]
  dsimp only
  rw [hfound, hxml]
  dsimp only
  rw [main_eq_ite hnow ht]
  rfl

/-- **What a run of the script is seen as is what a memory does.** -/
theorem runMain_view {W : WordChars} {t : Tree} (ht : t.Sound) (argv : List Text) :
    ((runMain W argv t).1, (runMain W argv t).2.view W) = (t.view W).run (mode argv) := by
  cases hm : mode argv with
  | none =>
    rw [runMain, hm]
    rfl
  | some m =>
    by_cases hread : ∃ xml now, t.sources.Reads W xml now
    · obtain ⟨xml, now, h⟩ := hread
      have hview : (t.view W).now = some now.toFinset := lines_of_reads h
      cases m with
      | update =>
        rw [runMain_update h hm, Memory.run, hview]
        dsimp only [Tree.view]
        rw [Option.map_some, splitlines_written h.published, lines_of_reads h]
      | check =>
        rw [runMain_check h ht hm, Memory.run, hview]
        simp only [Option.isSome_some, true_and]
    · have hread' : ∀ xml now, ¬ t.sources.Reads W xml now := fun xml now h => hread ⟨xml, now, h⟩
      have hview : (t.view W).now = none := lines_of_unread hread'
      rw [runMain_of_unread hread' hm]
      cases m with
      | update => rw [Memory.run, hview]
      | check =>
        rw [Memory.run, hview]
        rfl

theorem sound_runMain {W : WordChars} {t : Tree} (ht : t.Sound) (argv : List Text) :
    (runMain W argv t).2.Sound := by
  cases hm : mode argv with
  | none =>
    rw [runMain, hm]
    exact ht
  | some m =>
    by_cases hread : ∃ xml now, t.sources.Reads W xml now
    · obtain ⟨xml, now, h⟩ := hread
      cases m with
      | update =>
        rw [runMain_update h hm]
        intro content hcontent
        obtain rfl := Option.some.inj hcontent
        rw [splitlines_written h.published]
        exact (surface_ok_iff.mp h.published).2.2
      | check =>
        rw [runMain_check h ht hm]
        exact ht
    · rw [runMain_of_unread (fun xml now h => hread ⟨xml, now, h⟩) hm]
      exact ht

/-! ### Whole runs -/

theorem sound_step {W : WordChars} {t t' : Tree} {e : Event} (ht : t.Sound)
    (h : step W t e = some t') : t'.Sound := by
  cases e with
  | edit sources =>
    obtain rfl := Option.some.inj h
    exact ht
  | run argv code =>
    obtain ⟨-, h⟩ := Option.ite_none_right_eq_some.mp h
    exact Option.some.inj h ▸ sound_runMain ht argv

theorem step_view {W : WordChars} {t : Tree} {e : Event} (ht : t.Sound) :
    (step W t e).map (Tree.view W) = (t.view W).step W e := by
  cases e with
  | edit sources => rfl
  | run argv code =>
    have hview := runMain_view (W := W) ht argv
    rw [step, Memory.step, ← hview]
    dsimp only
    split
    · rfl
    · rfl

/-- **The script and its file are a memory of the last update.**  From any tree whose file has
no two lines of one key, and over any run of edits, updates and checks, each exits with what
the memory does: an update keeps what is published, a check passes exactly when what is
published is what was kept, both stop where the sources cannot be read, and nothing else
touches the file. -/
theorem lifecycle {W : WordChars} {t : Tree} (ht : t.Sound) (events : List Event) :
    (exec (step W) t events).map (Tree.view W) = exec (Memory.step W) (t.view W) events :=
  exec_map (fun _ _ _ => sound_step) (fun _ _ => step_view) ht

def statusSources : Sources where
  doxyfile := unlines Reference.pathLines
  header := Reference.statusHeader
  xml := some Reference.statusXml

def movedSources : Sources where
  doxyfile := unlines Reference.pathLines
  header := Reference.statusHeader
  xml := some withoutSlotXml

def statusRun : List Event :=
  [.run ["surface.py".toList, "Doxyfile".toList] 1,
    .run ["surface.py".toList, "Doxyfile".toList, "--update".toList] 0,
    .run ["surface.py".toList, "Doxyfile".toList] 0,
    .edit movedSources,
    .run ["surface.py".toList, "Doxyfile".toList] 1]

theorem lifecycle_statusRun :
    (exec (step asciiWords) ⟨statusSources, none⟩ statusRun).map (Tree.view asciiWords) =
      exec (Memory.step asciiWords) ((Tree.mk statusSources none).view asciiWords) statusRun ∧
    (exec (step asciiWords) ⟨statusSources, none⟩ statusRun).isSome = true :=
  ⟨lifecycle (fun content h => absurd h (Option.not_mem_none content)) statusRun, by decide⟩

end ZuCpp.Surface
