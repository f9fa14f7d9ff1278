import ZuCpp.Text
import ZuCpp.Lib.Run
import ZuCpp.Lib.Arena

/-!
# `test/harness.hpp`: many processes and one temporary directory

Under `ctest -j` several processes run the same cases at the same time, and every case that
needs files has a `TempDir`.  The counters restart in each process, so two of them ask for the
same name; the constructor makes the directory rather than picking a name, which is one
`mkdir`, and the destructor removes what the constructor made.

Here is a file system, any number of processes, and their steps in any order: a round of the
loop in the constructor, work of a case in its directory, and the single steps of
`remove_all`.  **Every case has its directory for itself** (`tempdirs_isolated`): no two have
the same, none is taken away, and what a case has in it, or was there before, only the case
itself changes.

The last part is `run`, and when the suite passes (`run_eq_zero_iff`).
-/

namespace ZuCpp.Harness

open Lib

abbrev Dir := List (Str × Str)

/-- A `TempDir` object: `path_`, and whether its destructor is at work. -/
structure TempDir where
  path : Str
  removing : Bool := false
  deriving DecidableEq, Repr

/-- A process that runs cases: `counter`, the constructor that runs with its `name` and its
`tries`, and the objects. -/
structure Process where
  counter : Nat := 0
  constructing : Option (Str × Nat) := none
  dirs : Arena TempDir := Arena.empty

/-- What is under the temporary directory, and the processes.  `lost` is that a case found its
directory gone. -/
structure World where
  fs : Str → Option Dir
  processes : Nat → Process
  lost : Bool := false

/-- `"zu-cpp-" + name + '-' + std::to_string(counter)`. -/
def leaf (name : Str) (counter : Nat) : Str :=
  ascii "zu-cpp-" ++ name ++ ascii "-" ++ (Nat.toDigits 10 counter).map Char.toUInt8

inductive Event
  /-- `TempDir(name)` is called -/
  | construct (p : Nat) (name : Str)
  /-- a round of the loop in the constructor; `refused` is that the system said no for another
  reason than the name -/
  | attempt (p : Nat) (refused : Bool)
  /-- a case works in its directory, and leaves `d` in it -/
  | work (p i : Nat) (d : Dir)
  /-- `~TempDir()` is called -/
  | destroy (p i : Nat)
  /-- `remove_all` takes away the file `j` -/
  | unlink (p i j : Nat)
  /-- `remove_all` takes away the directory -/
  | rmdir (p i : Nat)
  /-- `remove_all` fails, which is ignored -/
  | giveUp (p i : Nat)
  /-- the process dies, and another starts -/
  | crash (p : Nat)
  deriving DecidableEq, Repr

/-- The object that the step is an action of in its directory. -/
def Event.actor : Event → Option (Nat × Nat)
  | .work p i _ | .unlink p i _ | .rmdir p i => some (p, i)
  | _ => none

namespace World

def held (w : World) (p i : Nat) : Option TempDir := (w.processes p).dirs.get i

def setProcess (w : World) (p : Nat) (P : Process) : World :=
  { w with processes := Function.update w.processes p P }

def setDir (w : World) (q : Str) (d : Option Dir) : World :=
  { w with fs := Function.update w.fs q d }

/-- One step.  `none`: the process is not where it could make it. -/
def step (w : World) : Event → Option World
  | .construct p name =>
    let P := w.processes p
    if P.constructing.isSome then none
    else some (w.setProcess p { P with constructing := some (name, 0) })
  | .attempt p refused => do
    let P := w.processes p
    let (name, tries) ← P.constructing
    if tries < 4096 then
      let candidate := leaf name P.counter
      if refused = false ∧ w.fs candidate = none then
        some ((w.setDir candidate (some [])).setProcess p
          ⟨P.counter + 1, none, P.dirs.alloc ⟨candidate, false⟩⟩)
      else some (w.setProcess p ⟨P.counter + 1, some (name, tries + 1), P.dirs⟩)
    else
      -- `fail`: the constructor throws, and there is no object
      some (w.setProcess p { P with constructing := none })
  | .work p i d => do
    let t ← w.held p i
    if t.removing then none
    else if w.fs t.path = none then some { w with lost := true }
    else some (w.setDir t.path (some d))
  | .destroy p i => do
    let P := w.processes p
    let t ← w.held p i
    some (w.setProcess p { P with dirs := P.dirs.put i { t with removing := true } })
  | .unlink p i j => do
    let t ← w.held p i
    if t.removing then
      match w.fs t.path with
      | none => some w
      | some d => some (w.setDir t.path (some (d.eraseIdx j)))
    else none
  | .rmdir p i => do
    let P := w.processes p
    let t ← w.held p i
    if t.removing then
      match w.fs t.path with
      | none => some (w.setProcess p { P with dirs := P.dirs.drop i })
      | some [] => some ((w.setDir t.path none).setProcess p { P with dirs := P.dirs.drop i })
      | some (_ :: _) => none
    else none
  | .giveUp p i => do
    let P := w.processes p
    let t ← w.held p i
    if t.removing then some (w.setProcess p { P with dirs := P.dirs.drop i }) else none
  | .crash p => some (w.setProcess p {})

def Holds (w : World) (p i : Nat) (q : Str) : Prop := ∃ t, w.held p i = some t ∧ t.path = q

/-- **Every object has a directory, and no other object has it.** -/
structure Sound (w : World) : Prop where
  there : ∀ p i q, w.Holds p i q → ∃ d, w.fs q = some d
  apart : ∀ p i p' i' q, w.Holds p i q → w.Holds p' i' q → p = p' ∧ i = i'
  kept : w.lost = false

/-! ### What a step does -/

theorem held_setProcess (w : World) (p : Nat) (P : Process) (p' i : Nat) :
    (w.setProcess p P).held p' i = if p' = p then P.dirs.get i else w.held p' i := by
  rw [held, setProcess, held]
  dsimp only
  by_cases h : p' = p
  · subst h
    rw [Function.update_self, if_pos rfl]
  · rw [Function.update_of_ne h, if_neg h]

inductive Stepped (w w' : World) (e : Event) : Prop
  /-- nothing happens to a directory -/
  | quiet (fs : w'.fs = w.fs) (holds : ∀ p i q, w'.Holds p i q → w.Holds p i q)
  /-- a directory is made where there was none -/
  | made (p i : Nat) (q : Str) (free : w.fs q = none)
      (fs : w'.fs = Function.update w.fs q (some []))
      (holds : ∀ p' i' q', w'.Holds p' i' q' →
        (p' = p ∧ i' = i ∧ q' = q) ∨ w.Holds p' i' q')
  /-- an object acts in its directory -/
  | acted (p i : Nat) (q : Str) (d : Dir) (actor : e.actor = some (p, i)) (own : w.Holds p i q)
      (fs : w'.fs = Function.update w.fs q (some d))
      (holds : ∀ p' i' q', w'.Holds p' i' q' → w.Holds p' i' q')
  /-- an object takes its directory away, and is gone -/
  | removed (p i : Nat) (q : Str) (actor : e.actor = some (p, i)) (own : w.Holds p i q)
      (fs : w'.fs = Function.update w.fs q none)
      (holds : ∀ p' i' q', w'.Holds p' i' q' → ¬ (p' = p ∧ i' = i) ∧ w.Holds p' i' q')

/-- A process that keeps or forgets objects, and does not move them. -/
theorem holds_setProcess {w : World} {p : Nat} {P : Process}
    (h : ∀ i t, P.dirs.get i = some t → w.Holds p i t.path) :
    ∀ p' i q, (w.setProcess p P).Holds p' i q → w.Holds p' i q := by
  rintro p' i q ⟨t, ht, rfl⟩
  rw [held_setProcess] at ht
  split at ht
  · rename_i hp
    exact hp ▸ h i t ht
  · exact ⟨t, ht, rfl⟩

theorem Stepped.of_setProcess {w : World} {p : Nat} {P : Process} {e : Event}
    (h : ∀ i t, P.dirs.get i = some t → w.Holds p i t.path) : Stepped w (w.setProcess p P) e :=
  .quiet rfl (holds_setProcess h)

theorem holds_of_get {w : World} {p i : Nat} {t : TempDir}
    (h : (w.processes p).dirs.get i = some t) : w.Holds p i t.path := ⟨t, h, rfl⟩

theorem holds_of_get_drop {w : World} {p j : Nat} (i : Nat) (t : TempDir)
    (h : ((w.processes p).dirs.drop j).get i = some t) : w.Holds p i t.path := by
  rw [Arena.get_drop] at h
  split at h
  · cases h
  · exact holds_of_get h

/-- **What one step can do**, where every object has its directory. -/
theorem step_cases {w w' : World} {e : Event} (hw : Sound w) (h : w.step e = some w') :
    Stepped w w' e ∧ w'.lost = false := by
  cases e with
  | construct p name =>
    simp only [step] at h
    split at h
    · cases h
    · cases h
      exact ⟨.of_setProcess fun i t ht => holds_of_get ht, hw.kept⟩
  | attempt p refused =>
    simp only [step, Option.bind_eq_bind, Option.bind_eq_some_iff] at h
    obtain ⟨⟨name, tries⟩, -, h⟩ := h
    dsimp only at h
    split at h
    · split at h
      · rename_i hfree
        cases h
        refine ⟨.made p (w.processes p).dirs.next _ hfree.2 rfl ?_, hw.kept⟩
        rintro p' i q ⟨t, ht, rfl⟩
        rw [held_setProcess] at ht
        split at ht
        · rename_i hp
          subst hp
          rw [Arena.get_alloc] at ht
          split at ht
          · rename_i hi
            cases ht
            exact Or.inl ⟨rfl, hi, rfl⟩
          · exact Or.inr (holds_of_get ht)
        · exact Or.inr ⟨t, ht, rfl⟩
      · cases h
        exact ⟨.of_setProcess fun i t ht => holds_of_get ht, hw.kept⟩
    · cases h
      exact ⟨.of_setProcess fun i t ht => holds_of_get ht, hw.kept⟩
  | work p i d =>
    simp only [step, Option.bind_eq_bind, Option.bind_eq_some_iff] at h
    obtain ⟨t, ht, h⟩ := h
    have hown : w.Holds p i t.path := ⟨t, ht, rfl⟩
    split at h
    · cases h
    · split at h
      · rename_i hgone
        obtain ⟨d', hd'⟩ := hw.there p i _ hown
        rw [hgone] at hd'
        cases hd'
      · cases h
        exact ⟨.acted p i _ d rfl hown rfl fun _ _ _ hq => hq, hw.kept⟩
  | destroy p i =>
    simp only [step, Option.bind_eq_bind, Option.bind_eq_some_iff] at h
    obtain ⟨t, ht, h⟩ := h
    cases h
    refine ⟨.of_setProcess ?_, hw.kept⟩
    intro j u hu
    rw [held] at ht
    rw [Arena.get_put ht] at hu
    split at hu
    · rename_i hj
      cases hu
      have hold : w.Holds p i t.path := holds_of_get ht
      exact hj ▸ hold
    · exact holds_of_get hu
  | unlink p i j =>
    simp only [step, Option.bind_eq_bind, Option.bind_eq_some_iff] at h
    obtain ⟨t, ht, h⟩ := h
    split at h
    · split at h
      · cases h
        exact ⟨.quiet rfl fun _ _ _ hq => hq, hw.kept⟩
      · cases h
        exact ⟨.acted p i _ _ rfl ⟨t, ht, rfl⟩ rfl fun _ _ _ hq => hq, hw.kept⟩
    · cases h
  | rmdir p i =>
    simp only [step, Option.bind_eq_bind, Option.bind_eq_some_iff] at h
    obtain ⟨t, ht, h⟩ := h
    split at h
    · split at h
      · cases h
        exact ⟨.of_setProcess holds_of_get_drop, hw.kept⟩
      · cases h
        refine ⟨.removed p i t.path rfl ⟨t, ht, rfl⟩ rfl ?_, hw.kept⟩
        rintro p' i' q ⟨u, hu, rfl⟩
        rw [held_setProcess] at hu
        split at hu
        · rename_i hp
          subst hp
          rw [Arena.get_drop] at hu
          split at hu
          · cases hu
          · rename_i hi
            exact ⟨fun hsame => hi hsame.2, holds_of_get hu⟩
        · rename_i hp
          exact ⟨fun hsame => hp hsame.1, ⟨u, hu, rfl⟩⟩
      · cases h
    · cases h
  | giveUp p i =>
    simp only [step, Option.bind_eq_bind, Option.bind_eq_some_iff] at h
    obtain ⟨t, ht, h⟩ := h
    split at h
    · cases h
      exact ⟨.of_setProcess holds_of_get_drop, hw.kept⟩
    · cases h
  | crash p =>
    cases h
    refine ⟨.of_setProcess ?_, hw.kept⟩
    intro i t ht
    rw [show ({} : Process).dirs = Arena.empty from rfl, Arena.get_empty] at ht
    cases ht

/-! ### Whole runs -/

theorem sound_step {w w' : World} {e : Event} (hw : Sound w) (h : w.step e = some w') :
    Sound w' := by
  obtain ⟨hstep, hlost⟩ := step_cases hw h
  cases hstep with
  | quiet fs holds =>
    refine ⟨fun p i q hq => ?_, fun p i p' i' q hq hq' => ?_, hlost⟩
    · rw [fs]
      exact hw.there p i q (holds p i q hq)
    · exact hw.apart p i p' i' q (holds p i q hq) (holds p' i' q hq')
  | made p i q free fs holds =>
    -- nobody has a directory that is not there
    have hnobody : ∀ p' i', ¬ w.Holds p' i' q := by
      intro p' i' hq
      obtain ⟨d, hd⟩ := hw.there p' i' q hq
      rw [free] at hd
      cases hd
    refine ⟨fun p' i' q' hq => ?_, fun p1 i1 p2 i2 q' h1 h2 => ?_, hlost⟩
    · rw [fs]
      rcases holds p' i' q' hq with ⟨-, -, rfl⟩ | hq
      · exact ⟨_, Function.update_self _ _ _⟩
      · have hne : q' ≠ q := fun heq => hnobody p' i' (heq ▸ hq)
        rw [Function.update_of_ne hne]
        exact hw.there p' i' q' hq
    · rcases holds p1 i1 q' h1 with ⟨rfl, rfl, rfl⟩ | h1
      · rcases holds p2 i2 q' h2 with ⟨rfl, rfl, -⟩ | h2
        · exact ⟨rfl, rfl⟩
        · exact absurd h2 (hnobody p2 i2)
      · rcases holds p2 i2 q' h2 with ⟨rfl, rfl, rfl⟩ | h2
        · exact absurd h1 (hnobody p1 i1)
        · exact hw.apart p1 i1 p2 i2 q' h1 h2
  | acted p i q d actor own fs holds =>
    refine ⟨fun p' i' q' hq => ?_, fun p1 i1 p2 i2 q' h1 h2 => ?_, hlost⟩
    · rw [fs]
      by_cases heq : q' = q
      · rw [heq]
        exact ⟨d, Function.update_self _ _ _⟩
      · rw [Function.update_of_ne heq]
        exact hw.there p' i' q' (holds p' i' q' hq)
    · exact hw.apart p1 i1 p2 i2 q' (holds p1 i1 q' h1) (holds p2 i2 q' h2)
  | removed p i q actor own fs holds =>
    refine ⟨fun p' i' q' hq => ?_, fun p1 i1 p2 i2 q' h1 h2 => ?_, hlost⟩
    · obtain ⟨hne, hq⟩ := holds p' i' q' hq
      have hqq : q' ≠ q := fun heq => hne (hw.apart p' i' p i q (heq ▸ hq) own)
      rw [fs, Function.update_of_ne hqq]
      exact hw.there p' i' q' hq
    · exact hw.apart p1 i1 p2 i2 q' (holds p1 i1 q' h1).2 (holds p2 i2 q' h2).2

/-- One step of anybody else leaves a directory as it is, and nobody else comes to have it. -/
theorem undisturbed_step {w w' : World} {e : Event} {q : Str} {d : Dir} (hw : Sound w)
    (h : w.step e = some w') (hq : w.fs q = some d)
    (he : ∀ p i, e.actor = some (p, i) → ¬ w.Holds p i q) :
    w'.fs q = some d ∧ ∀ p i, w'.Holds p i q → w.Holds p i q := by
  obtain ⟨hstep, -⟩ := step_cases hw h
  cases hstep with
  | quiet fs holds => exact ⟨fs ▸ hq, fun p i => holds p i q⟩
  | made p i q' free fs holds =>
    have hne : q ≠ q' := by
      rintro rfl
      rw [free] at hq
      cases hq
    refine ⟨by rw [fs, Function.update_of_ne hne, hq], fun p' i' hold => ?_⟩
    rcases holds p' i' q hold with ⟨-, -, heq⟩ | hold
    · exact absurd heq hne
    · exact hold
  | acted p i q' d' actor own fs holds =>
    have hne : q ≠ q' := fun heq => he p i actor (heq ▸ own)
    exact ⟨by rw [fs, Function.update_of_ne hne, hq], fun p' i' => holds p' i' q⟩
  | removed p i q' actor own fs holds =>
    have hne : q ≠ q' := fun heq => he p i actor (heq ▸ own)
    exact ⟨by rw [fs, Function.update_of_ne hne, hq], fun p' i' hold => (holds p' i' q hold).2⟩

theorem undisturbed {q : Str} {d : Dir} : ∀ {es : List Event} {w w' : World}, Sound w →
    exec step w es = some w' → w.fs q = some d →
    (∀ e ∈ es, ∀ p i, e.actor = some (p, i) → ¬ w.Holds p i q) → w'.fs q = some d := by
  intro es
  induction es with
  | nil =>
    intro w w' _ h hq _
    rw [exec_nil, Option.some.injEq] at h
    exact h ▸ hq
  | cons e es ih =>
    intro w w' hw h hq hes
    obtain ⟨w1, h1, hrest⟩ := exec_cons_some.mp h
    obtain ⟨hq1, hholds⟩ := undisturbed_step hw h1 hq (hes e List.mem_cons_self)
    refine ih (sound_step hw h1) hrest hq1 fun e' he' p i hact hold => ?_
    exact hes e' (List.mem_cons_of_mem e he') p i hact (hholds p i hold)

def start (fs : Str → Option Dir) : World := ⟨fs, fun _ => {}, false⟩

theorem sound_start (fs : Str → Option Dir) : Sound (start fs) := by
  have hnone : ∀ p i q, ¬ (start fs).Holds p i q := by
    rintro p i q ⟨t, ht, -⟩
    change Arena.empty.get i = some t at ht
    rw [Arena.get_empty] at ht
    cases ht
  exact ⟨fun p i q hq => absurd hq (hnone p i q), fun p i _ _ q hq => absurd hq (hnone p i q), rfl⟩

/-- **Every case has its directory for itself.**  Whatever earlier runs left behind, and however
the steps of the processes fall: no case finds its directory gone, every object has a
directory that no other object has, and from there on a directory that is there, an object's
or not, stays as it is unless the object that has it acts in it. -/
theorem tempdirs_isolated {fs : Str → Option Dir} {es : List Event} {w : World}
    (h : exec step (start fs) es = some w) :
    w.lost = false ∧ (∀ p i q, w.Holds p i q → ∃ d, w.fs q = some d) ∧
    (∀ p i p' i' q, w.Holds p i q → w.Holds p' i' q → p = p' ∧ i = i') ∧
    ∀ es' w' q d, exec step w es' = some w' → w.fs q = some d →
      (∀ e ∈ es', ∀ p i, e.actor = some (p, i) → ¬ w.Holds p i q) → w'.fs q = some d := by
  have hw : Sound w := exec_invariant (fun _ _ _ hs => sound_step hs) (sound_start fs) h
  exact ⟨hw.kept, hw.there, hw.apart, fun _ _ _ _ h' hq hes => undisturbed hw h' hq hes⟩

def sameName : List Event :=
  [.construct 0 (ascii "append"), .construct 1 (ascii "append"), .attempt 0 false,
    .attempt 1 false, .work 0 0 [(ascii "db", ascii "zu")], .attempt 1 false]

theorem tempdirs_isolated_sameName : ∃ w, exec step (start fun _ => none) sameName = some w ∧
    w.Holds 0 0 (ascii "zu-cpp-append-0") ∧ w.Holds 1 0 (ascii "zu-cpp-append-1") ∧
    w.lost = false := by
  have h : exec step (start fun _ => none) sameName = some _ := rfl
  exact ⟨_, h, ⟨⟨ascii "zu-cpp-append-0", false⟩, rfl, rfl⟩,
    ⟨⟨ascii "zu-cpp-append-1", false⟩, rfl, rfl⟩, (tempdirs_isolated h).1⟩

end World

/-! ### `run` -/

/-- How a case ends: it returns, or throws a `Failure`, an exception, or something else. -/
inductive Ending
  | returned | failure (what : Str) | exception (what : Str) | other
  deriving DecidableEq, Repr

structure Case where
  name : Str
  fn : Ending

/-- The cases that are not skipped: `std::strstr(c.name, filter)` finds something. -/
def Case.picked (filter : Option Str) (c : Case) : Bool :=
  match filter with
  | none => true
  | some f => f <:+: c.name

def runCase (filter : Option Str) (counts : Nat × Nat) (c : Case) : Nat × Nat :=
  if c.picked filter then
    match c.fn with
    | .returned => (counts.1 + 1, counts.2)
    | _ => (counts.1 + 1, counts.2 + 1)
  else counts

def run (filter : Option Str) (cases : List Case) : Nat :=
  if filter = some (ascii "--list") then 0
  else
    let (ran, failed) := cases.foldl (runCase filter) (0, 0)
    if ran = 0 then 1
    else if failed = 0 then 0 else 1

/-- A case that ends badly ends itself and no other: all that are picked are counted. -/
theorem runCases_eq (filter : Option Str) (cases : List Case) : ∀ ran failed : Nat,
    cases.foldl (runCase filter) (ran, failed) =
      (ran + cases.countP (Case.picked filter),
        failed + cases.countP fun c => c.picked filter && c.fn != .returned) := by
  induction cases with
  | nil => exact fun _ _ => rfl
  | cons c cases ih =>
    intro ran failed
    rw [List.foldl_cons, runCase, List.countP_cons, List.countP_cons]
    cases hp : c.picked filter with
    | false =>
      rw [if_neg Bool.false_ne_true, ih]
      rfl
    | true =>
      rw [if_pos rfl, if_pos rfl]
      cases hf : c.fn with
      | returned =>
        rw [ih]
        simp only [bne_self_eq_false, Bool.and_false, Bool.false_eq_true, if_false, Prod.mk.injEq]
        omega
      | _ =>
        rw [ih]
        simp only [Prod.mk.injEq]
        refine ⟨by omega, ?_⟩
        change failed + 1 + _ = failed + (_ + 1)
        omega

/-- **When the suite passes**: it lists its cases, or some case is picked and every one that is
returns. -/
theorem run_eq_zero_iff {filter : Option Str} {cases : List Case} :
    run filter cases = 0 ↔ filter = some (ascii "--list") ∨
      (∃ c ∈ cases, c.picked filter = true) ∧
        ∀ c ∈ cases, c.picked filter = true → c.fn = .returned := by
  rw [run, runCases_eq]
  by_cases hlist : filter = some (ascii "--list")
  · rw [if_pos hlist]
    exact iff_of_true rfl (Or.inl hlist)
  · rw [if_neg hlist, or_iff_right hlist]
    dsimp only
    rw [Nat.zero_add, Nat.zero_add]
    have hran : cases.countP (Case.picked filter) = 0 ↔ ¬ ∃ c ∈ cases, c.picked filter = true := by
      rw [List.countP_eq_zero]
      simp only [not_exists, not_and]
    have hfailed : (cases.countP fun c => c.picked filter && c.fn != .returned) = 0 ↔
        ∀ c ∈ cases, c.picked filter = true → c.fn = .returned := by
      rw [List.countP_eq_zero]
      simp only [Bool.and_eq_true, bne_iff_ne, ne_eq, not_and, not_not]
    by_cases hr : cases.countP (Case.picked filter) = 0
    · rw [if_pos hr]
      exact iff_of_false Nat.one_ne_zero fun h => hran.mp hr h.1
    · rw [if_neg hr, and_iff_right (not_not.mp fun h => hr (hran.mpr h)), ← hfailed]
      split
      · rename_i hf
        exact iff_of_true rfl hf
      · rename_i hf
        exact iff_of_false Nat.one_ne_zero hf

end ZuCpp.Harness
