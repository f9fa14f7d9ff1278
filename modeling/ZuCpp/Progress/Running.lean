import ZuCpp.Progress.Model

/-!
# Progress reports of a running statement

A statement keeps the `user_data` it began under, and the watch at that address is freed
when the call that replaces it returns.  `Session` is one connection with a statement
running on it, taken in steps small enough for a report to come between the engine's
answer to `zu_conn_set_progress` and the line after it.  `reports_good_iff` says exactly
when no report finds its watch gone.
-/

namespace ZuCpp.Progress

open Lib

variable {F : Type}

/-- A running statement.  `accepted` and `returned` are history: a call that sets the
arrangement was accepted since the statement began, and one of those has returned. -/
structure Statement where
  userData : Option Nat
  /-- the arrangement in force when the statement began -/
  inForce : Option Nat
  accepted : Bool := false
  returned : Bool := false
  deriving DecidableEq, Repr

structure Report where
  userData : Option Nat
  inForce : Option Nat
  /-- the watch it reads is alive, or it reads none -/
  alive : Bool
  deriving DecidableEq, Repr

/-- The report carries null or a watch that was not destroyed, and it is the one of the
arrangement in force when the statement began. -/
def Report.Good (r : Report) : Prop := r.alive = true ∧ r.userData = r.inForce

instance (r : Report) : Decidable r.Good := inferInstanceAs (Decidable (_ ∧ _))

/-- A connection with its `watch_`, the `user_data` of the arrangement the engine has in
force, the call that was accepted and has not returned, the statement that is running,
and the reports so far, the last one first. -/
structure Session (F : Type) where
  watches : Arena F := Arena.empty
  watch : Handle Nat := {}
  engine : Option Nat := none
  pending : Option (Handle Nat) := none
  statement : Option Statement := none
  reports : List Report := []

inductive Event (F : Type)
  /-- `set_progress_impl` up to the answer of the engine, which accepts -/
  | call (watcher : Option F)
  /-- `watch_ = std::move(next)`, and the return -/
  | install
  /-- `set_progress_impl`, refused by the engine -/
  | refused (watcher : Option F)
  /-- a statement begins -/
  | start
  /-- the engine reports on it -/
  | report
  /-- it ends -/
  | finish

namespace Session

def readable (watches : Arena F) : Option Nat → Bool
  | none => true
  | some x => (watches.get x).isSome

/-- One event.  `none`: it cannot happen now. -/
def step (s : Session F) : Event F → Option (Session F)
  | .call watcher =>
    match s.pending with
    | some _ => none
    | none =>
      let m := World.makeWatch s.watches watcher
      some { s with
        watches := m.1, engine := m.2.p, pending := some m.2
        statement := s.statement.map fun st => { st with accepted := true } }
  | .install =>
    match s.pending with
    | none => none
    | some next =>
      let r := s.watch.moveAssign next
      some { s with
        watches := s.watches.dropAll r.2.2, watch := r.1, pending := none
        statement := s.statement.map fun st => { st with returned := st.accepted } }
  | .refused watcher =>
    match s.pending with
    | some _ => none
    | none =>
      let m := World.makeWatch s.watches watcher
      some { s with watches := m.1.dropAll m.2.destroy }
  | .start =>
    match s.statement with
    | some _ => none
    | none => some { s with statement := some { userData := s.engine, inForce := s.engine } }
  | .report =>
    match s.statement with
    | none => none
    | some st => some { s with
      reports := ⟨st.userData, st.inForce, readable s.watches st.userData⟩ :: s.reports }
  | .finish =>
    match s.statement with
    | none => none
    | some _ => some { s with statement := none }

/-- A report does not come after the return of a call that was accepted while the
statement was running, unless the statement has no watcher. -/
def NotOvertaken (s : Session F) : Event F → Prop
  | .report => ∀ st ∈ s.statement, st.userData = none ∨ st.returned = false
  | _ => True

instance (s : Session F) : (e : Event F) → Decidable (s.NotOvertaken e)
  | .report => inferInstanceAs (Decidable (∀ st ∈ s.statement, _))
  | .call _ | .install | .refused _ | .start | .finish => isTrue trivial

/-- Where a statement's watch is: in place until a call that was accepted since the
statement began has returned, and gone after that. -/
structure Tracks (s : Session F) (st : Statement) : Prop where
  inForce : st.userData = st.inForce
  order : st.returned = true → st.accepted = true
  kept : st.returned = false →
    match s.pending with
    | none => st.accepted = false ∧ st.userData = s.watch.p
    | some next => if st.accepted then st.userData = s.watch.p else st.userData = next.p
  gone : st.returned = true → ∀ x ∈ st.userData, x < s.watches.next ∧ s.watches.get x = none

/-- **The invariant.** -/
structure Sound (s : Session F) : Prop where
  watch : ∀ x ∈ s.watch.p, ∃ f, s.watches.get x = some f
  next : ∀ n ∈ s.pending, ∀ x ∈ n.p, (∃ f, s.watches.get x = some f) ∧ s.watch.p ≠ some x
  engine : s.engine = match s.pending with
    | none => s.watch.p
    | some n => n.p
  statement : ∀ st ∈ s.statement, Tracks s st

theorem sound_init : Sound ({} : Session F) :=
  ⟨nofun, nofun, rfl, nofun⟩

theorem sound_call {s s' : Session F} {watcher : Option F} (hs : Sound s)
    (h : s.step (.call watcher) = some s') : Sound s' := by
  simp only [step] at h
  cases hp : s.pending with
  | some n =>
    rw [hp] at h
    cases h
  | none =>
    rw [hp] at h
    cases h
    have hget : ∀ x, (∃ f, s.watches.get x = some f) →
        (World.makeWatch s.watches watcher).2.p ≠ some x ∧
        (World.makeWatch s.watches watcher).1.get x = s.watches.get x := by
      rintro x ⟨f, hf⟩
      have hne : (World.makeWatch s.watches watcher).2.p ≠ some x := World.makeWatch_ne hf
      exact ⟨hne, by rw [World.makeWatch_get, if_neg hne]⟩
    refine ⟨?_, ?_, rfl, ?_⟩
    · intro x hx
      have halive := hs.watch x hx
      obtain ⟨f, hf⟩ := halive
      exact ⟨f, (hget x ⟨f, hf⟩).2.trans hf⟩
    · intro n hn x hx
      cases hn
      exact ⟨World.makeWatch_alive hx, fun hw => (hget x (hs.watch x hw)).1 hx⟩
    · intro st' hst'
      obtain ⟨st, hst, rfl⟩ := Option.map_eq_some_iff.mp hst'
      have ht := hs.statement st hst
      refine ⟨ht.inForce, fun _ => rfl, ?_, ?_⟩
      · intro hr
        have := ht.kept hr
        rw [hp] at this
        exact this.2
      · intro hr x hx
        obtain ⟨hlt, hnone⟩ := ht.gone hr x hx
        refine ⟨Nat.lt_of_lt_of_le hlt (World.makeWatch_next _ _), ?_⟩
        show (World.makeWatch s.watches watcher).1.get x = none
        rw [World.makeWatch_get, if_neg, hnone]
        intro hm
        exact Nat.ne_of_lt hlt (World.makeWatch_eq_next hm)

theorem sound_install {s s' : Session F} (hs : Sound s) (h : s.step .install = some s') :
    Sound s' := by
  simp only [step] at h
  cases hp : s.pending with
  | none =>
    rw [hp] at h
    cases h
  | some n =>
    rw [hp] at h
    cases h
    have hget : ∀ x, s.watch.p ≠ some x →
        (s.watches.dropAll s.watch.p.toList).get x = s.watches.get x := by
      intro x hx
      rw [Arena.get_dropAll, if_neg fun hm => hx (Option.mem_toList.mp hm)]
    refine ⟨?_, nofun, ?_, ?_⟩
    · intro x hx
      obtain ⟨⟨f, hf⟩, hne⟩ := hs.next n hp x hx
      exact ⟨f, (hget x hne).trans hf⟩
    · show s.engine = n.p
      rw [hs.engine, hp]
    · intro st' hst'
      obtain ⟨st, hst, rfl⟩ := Option.map_eq_some_iff.mp hst'
      have ht := hs.statement st hst
      have hkept := ht.kept
      rw [hp] at hkept
      refine ⟨ht.inForce, id, fun hr => ⟨hr, ?_⟩, ?_⟩
      · -- the statement began after the engine's answer: its watch is the new one
        have hret : st.returned = false := by
          cases hret : st.returned with
          | false => rfl
          | true => exact (ht.order hret).symm.trans hr
        have := hkept hret
        dsimp only at this
        rw [if_neg (by rw [show st.accepted = false from hr]; exact Bool.false_ne_true)] at this
        exact this
      · intro hr x hx
        cases hret : st.returned with
        | true =>
          obtain ⟨hlt, hnone⟩ := ht.gone hret x hx
          refine ⟨by rw [Arena.next_dropAll]; exact hlt, ?_⟩
          exact (Arena.get_dropAll _ _ _).trans (by rw [hnone, ite_self])
        | false =>
          -- its watch was in place until now
          have huser := hkept hret
          dsimp only at huser
          rw [if_pos (show st.accepted = true from hr)] at huser
          have hw : s.watch.p = some x := huser.symm.trans hx
          obtain ⟨f, hf⟩ := hs.watch x hw
          refine ⟨by rw [Arena.next_dropAll]; exact Arena.lt_next_of_get hf, ?_⟩
          exact (Arena.get_dropAll _ _ _).trans (if_pos (Option.mem_toList.mpr hw))

theorem sound_refused {s s' : Session F} {watcher : Option F} (hs : Sound s)
    (h : s.step (.refused watcher) = some s') : Sound s' := by
  simp only [step] at h
  split at h
  · cases h
  · cases h
    have hget := World.makeWatch_destroy s.watches watcher
    refine ⟨?_, ?_, hs.engine, ?_⟩
    · intro x hx
      rw [hget]
      exact hs.watch x hx
    · intro n hn x hx
      rw [hget]
      exact hs.next n hn x hx
    · intro st hst
      have ht := hs.statement st hst
      refine ⟨ht.inForce, ht.order, ht.kept, ?_⟩
      intro hr x hx
      obtain ⟨hlt, hnone⟩ := ht.gone hr x hx
      refine ⟨?_, (hget x).trans hnone⟩
      rw [Arena.next_dropAll]
      exact Nat.lt_of_lt_of_le hlt (World.makeWatch_next _ _)

theorem sound_start {s s' : Session F} (hs : Sound s) (h : s.step .start = some s') :
    Sound s' := by
  simp only [step] at h
  split at h
  · cases h
  · cases h
    refine ⟨hs.watch, hs.next, hs.engine, ?_⟩
    intro st hst
    cases hst
    refine ⟨rfl, nofun, ?_, nofun⟩
    intro _
    have he := hs.engine
    show match s.pending with
      | none => false = false ∧ s.engine = s.watch.p
      | some next => if false = true then s.engine = s.watch.p else s.engine = next.p
    cases hp : s.pending with
    | none =>
      rw [hp] at he
      exact ⟨rfl, he⟩
    | some n =>
      rw [hp] at he
      exact he

/-- One event keeps track of where the watch of the statement is. -/
theorem sound_step {s s' : Session F} {e : Event F} (hs : Sound s) (h : s.step e = some s') :
    Sound s' := by
  cases e with
  | call watcher => exact sound_call hs h
  | install => exact sound_install hs h
  | refused watcher => exact sound_refused hs h
  | start => exact sound_start hs h
  | report =>
    simp only [step] at h
    split at h
    · cases h
    · cases h
      exact ⟨hs.watch, hs.next, hs.engine, fun st hst =>
        ⟨(hs.statement st hst).inForce, (hs.statement st hst).order, (hs.statement st hst).kept,
          (hs.statement st hst).gone⟩⟩
  | finish =>
    simp only [step] at h
    split at h
    · cases h
    · cases h
      exact ⟨hs.watch, hs.next, hs.engine, nofun⟩

/-- **The watch of a statement is there exactly until it is overtaken.** -/
theorem readable_iff {s : Session F} {st : Statement} (hs : Sound s) (hst : st ∈ s.statement) :
    readable s.watches st.userData = true ↔ st.userData = none ∨ st.returned = false := by
  have ht := hs.statement st hst
  cases hu : st.userData with
  | none => exact ⟨fun _ => Or.inl rfl, fun _ => rfl⟩
  | some x =>
    have halive : readable s.watches (some x) = true ↔ ∃ f, s.watches.get x = some f :=
      Option.isSome_iff_exists
    rw [halive]
    cases hret : st.returned with
    | true =>
      obtain ⟨-, hnone⟩ := ht.gone hret x hu
      rw [hnone]
      exact ⟨fun ⟨_, hf⟩ => (nomatch hf), fun h => by simp at h⟩
    | false =>
      refine ⟨fun _ => Or.inr rfl, ?_⟩
      intro _
      have hkept := ht.kept hret
      cases hp : s.pending with
      | none =>
        rw [hp] at hkept
        exact hs.watch x (hkept.2.symm.trans hu)
      | some n =>
        rw [hp] at hkept
        dsimp only at hkept
        split at hkept
        · exact hs.watch x (hkept.symm.trans hu)
        · exact (hs.next n hp x (hkept.symm.trans hu)).1

def ReportsGood (s : Session F) : Prop := ∀ r ∈ s.reports, r.Good

theorem reportsGood_step {s s' : Session F} {e : Event F} (hs : Sound s)
    (h : s.step e = some s') : s'.ReportsGood ↔ s.ReportsGood ∧ s.NotOvertaken e := by
  cases e with
  | report =>
    simp only [step] at h
    split at h
    · cases h
    · rename_i st hst
      cases h
      have hgood : (⟨st.userData, st.inForce, readable s.watches st.userData⟩ : Report).Good ↔
          s.NotOvertaken .report := by
        rw [Report.Good, readable_iff hs hst]
        refine ⟨?_, fun hn => ⟨hn st hst, (hs.statement st hst).inForce⟩⟩
        intro hr st' hst'
        rw [Option.mem_def, hst, Option.some.injEq] at hst'
        exact hst' ▸ hr.1
      rw [ReportsGood, List.forall_mem_cons, hgood, and_comm]
      rfl
  | call watcher =>
    simp only [step] at h
    split at h
    · cases h
    · cases h
      exact ⟨fun hr => ⟨hr, trivial⟩, And.left⟩
  | install =>
    simp only [step] at h
    split at h
    · cases h
    · cases h
      exact ⟨fun hr => ⟨hr, trivial⟩, And.left⟩
  | refused watcher =>
    simp only [step] at h
    split at h
    · cases h
    · cases h
      exact ⟨fun hr => ⟨hr, trivial⟩, And.left⟩
  | start =>
    simp only [step] at h
    split at h
    · cases h
    · cases h
      exact ⟨fun hr => ⟨hr, trivial⟩, And.left⟩
  | finish =>
    simp only [step] at h
    split at h
    · cases h
    · cases h
      exact ⟨fun hr => ⟨hr, trivial⟩, And.left⟩

/-- **Exactly when no statement reports to a freed watcher.**  Every report of a run finds
null or a live watch, of the arrangement in force when its statement began, if and only if
no report comes after the return of a call that was accepted while its statement was
running, the statements without a watcher apart. -/
theorem reports_good_iff {es : List (Event F)} {s : Session F} (h : exec step {} es = some s) :
    s.ReportsGood ↔ Along step NotOvertaken {} es := by
  rw [exec_iff_along (fun _ _ _ => sound_step) (fun _ _ _ => reportsGood_step) sound_init h]
  exact ⟨And.right, fun ha => ⟨nofun, ha⟩⟩

/-- A report between the engine's answer and the line after it still finds its watch. -/
def reportInBetween : List (Event String) :=
  [.call (some "first"), .install, .start, .report, .refused (some "second"),
    .call (some "third"), .report, .finish, .start, .install, .report]

theorem reports_good_reportInBetween :
    ∃ s, exec step ({} : Session String) reportInBetween = some s ∧ s.ReportsGood :=
  ⟨_, rfl, (reports_good_iff (rfl : exec step {} reportInBetween = _)).mpr (by decide)⟩

/-- `clear_progress` while a statement is running, and one more report of the statement. -/
def clearedWhileRunning : List (Event String) :=
  [.call (some "watcher"), .install, .start, .report, .call none, .install, .report]

/-- **A report to a freed watcher.** -/
theorem report_to_freed_watch :
    ∃ s, exec step ({} : Session String) clearedWhileRunning = some s ∧ ¬ s.ReportsGood :=
  ⟨_, rfl, fun hr => absurd (hr _ (List.mem_cons_self ..)) (by decide)⟩

end Session

end ZuCpp.Progress
