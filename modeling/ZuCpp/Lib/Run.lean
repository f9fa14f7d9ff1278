import Mathlib.Data.List.Basic

/-!
# Runs of a partial labelled step

A system is given by `step : σ → ℓ → Option σ`: in the state `s` the label `l` is
either impossible (`none`) or leads to one state.  Everything a system may choose
(an answer from outside, a scheduling decision) is part of the label, so a run is
a list of labels and `exec` computes where it ends.

* `exec step s ls`: the state the run ends in, `none` when a step is impossible.
* `Along step P s ls`: every step of the run meets `P`, asked of the state before
  the step and of its label.
* `exec_invariant`, `exec_invariant_along`: an invariant of one step is an
  invariant of a whole run.
* `exec_simulates`: what simulates a system step by step simulates its runs.
* `exec_map`: what a system is seen as step by step, its runs are seen as.
* `exec_iff_along`, `exec_always_iff`: a condition that is exact for one step is exact
  for a run.
-/

namespace ZuCpp.Lib

variable {σ τ ℓ : Type*}

/-- Performs the labels in order. -/
def exec (step : σ → ℓ → Option σ) : σ → List ℓ → Option σ
  | s, [] => some s
  | s, l :: ls => (step s l).bind fun t => exec step t ls

@[simp] theorem exec_nil (step : σ → ℓ → Option σ) (s : σ) : exec step s [] = some s := rfl

theorem exec_cons (step : σ → ℓ → Option σ) (s : σ) (l : ℓ) (ls : List ℓ) :
    exec step s (l :: ls) = (step s l).bind fun t => exec step t ls := rfl

theorem exec_cons_some {step : σ → ℓ → Option σ} {s u : σ} {l : ℓ} {ls : List ℓ} :
    exec step s (l :: ls) = some u ↔ ∃ t, step s l = some t ∧ exec step t ls = some u := by
  rw [exec_cons, Option.bind_eq_some_iff]

/-- Every step of the run from `s` meets `P`. -/
def Along (step : σ → ℓ → Option σ) (P : σ → ℓ → Prop) : σ → List ℓ → Prop
  | _, [] => True
  | s, l :: ls => P s l ∧ ∀ t, step s l = some t → Along step P t ls

instance decidableAlong {step : σ → ℓ → Option σ} {P : σ → ℓ → Prop}
    [∀ s l, Decidable (P s l)] : ∀ (s : σ) (ls : List ℓ), Decidable (Along step P s ls)
  | _, [] => isTrue trivial
  | s, l :: ls =>
    match h : step s l with
    | none =>
      decidable_of_iff (P s l) ⟨fun hp => ⟨hp, fun t ht => by rw [h] at ht; cases ht⟩, And.left⟩
    | some t =>
      have : Decidable (Along step P t ls) := decidableAlong t ls
      decidable_of_iff (P s l ∧ Along step P t ls)
        ⟨fun hp => ⟨hp.1, fun u hu => by rw [h] at hu; cases hu; exact hp.2⟩,
          fun hp => ⟨hp.1, hp.2 t h⟩⟩

/-- **What one guarded step keeps, a guarded run keeps.** -/
theorem exec_invariant_along {step : σ → ℓ → Option σ} {P : σ → ℓ → Prop} {I : σ → Prop}
    (hstep : ∀ s l t, I s → P s l → step s l = some t → I t) :
    ∀ {ls : List ℓ} {s t : σ}, I s → Along step P s ls → exec step s ls = some t → I t := by
  intro ls
  induction ls with
  | nil =>
    intro s t hs _ h
    rw [exec_nil, Option.some.injEq] at h
    exact h ▸ hs
  | cons l ls ih =>
    intro s t hs ha h
    obtain ⟨u, hu, hrest⟩ := exec_cons_some.mp h
    exact ih (hstep s l u hs ha.1 hu) (ha.2 u hu) hrest

/-- **A simulation of one step is a simulation of a run.**  `R s t` holds while the states
`s` of the one system and `t` of the other stand for each other. -/
theorem exec_simulates {step : σ → ℓ → Option σ} {abs : τ → ℓ → Option τ} {R : σ → τ → Prop}
    (hstep : ∀ s t l t', R s t → abs t l = some t' → ∃ s', step s l = some s' ∧ R s' t') :
    ∀ {ls : List ℓ} {s : σ} {t t' : τ}, R s t → exec abs t ls = some t' →
      ∃ s', exec step s ls = some s' ∧ R s' t' := by
  intro ls
  induction ls with
  | nil =>
    intro s t t' hR h
    rw [exec_nil, Option.some.injEq] at h
    exact ⟨s, rfl, h ▸ hR⟩
  | cons l ls ih =>
    intro s t t' hR h
    obtain ⟨u, hu, hrest⟩ := exec_cons_some.mp h
    obtain ⟨v, hv, hR'⟩ := hstep s t l u hR hu
    obtain ⟨s', hs', hR''⟩ := ih hR' hrest
    exact ⟨s', exec_cons_some.mpr ⟨v, hv, hs'⟩, hR''⟩

/-- **What commutes with one step commutes with a run.**  `f` takes a state of the one system
to the state of the other that it is seen as. -/
theorem exec_map {step : σ → ℓ → Option σ} {abs : τ → ℓ → Option τ} {f : σ → τ} {I : σ → Prop}
    (hinv : ∀ s l t, I s → step s l = some t → I t)
    (hstep : ∀ s l, I s → (step s l).map f = abs (f s) l) :
    ∀ {ls : List ℓ} {s : σ}, I s → (exec step s ls).map f = exec abs (f s) ls := by
  intro ls
  induction ls with
  | nil =>
    intro s _
    rfl
  | cons l ls ih =>
    intro s hs
    rw [exec_cons, exec_cons, ← hstep s l hs]
    cases h : step s l with
    | none => rfl
    | some t => exact ih (hinv s l t hs h)

theorem along_true (step : σ → ℓ → Option σ) : ∀ (ls : List ℓ) (s : σ),
    Along step (fun _ _ => True) s ls
  | [], _ => trivial
  | _ :: ls, _ => ⟨trivial, fun t _ => along_true step ls t⟩

/-- **What one step keeps, a run keeps.** -/
theorem exec_invariant {step : σ → ℓ → Option σ} {I : σ → Prop}
    (hstep : ∀ s l t, I s → step s l = some t → I t)
    {ls : List ℓ} {s t : σ} (hs : I s) (h : exec step s ls = some t) : I t :=
  exec_invariant_along (P := fun _ _ => True) (fun s l t hi _ => hstep s l t hi) hs
    (along_true step ls s) h

/-- **A condition that is exact for one step is exact for a run.** -/
theorem exec_iff_along {step : σ → ℓ → Option σ} {P : σ → ℓ → Prop} {I Q : σ → Prop}
    (hinv : ∀ s l t, I s → step s l = some t → I t)
    (hstep : ∀ s l t, I s → step s l = some t → (Q t ↔ Q s ∧ P s l)) :
    ∀ {ls : List ℓ} {s t : σ}, I s → exec step s ls = some t →
      (Q t ↔ Q s ∧ Along step P s ls) := by
  intro ls
  induction ls with
  | nil =>
    intro s t _ h
    rw [exec_nil, Option.some.injEq] at h
    subst h
    exact ⟨fun hq => ⟨hq, trivial⟩, And.left⟩
  | cons l ls ih =>
    intro s t hs h
    obtain ⟨u, hu, hrest⟩ := exec_cons_some.mp h
    rw [ih (hinv s l u hs hu) hrest, hstep s l u hs hu, and_assoc]
    refine and_congr_right fun _ => and_congr_right fun _ => ⟨?_, fun ha => ha u hu⟩
    intro ha v hv
    rw [hu, Option.some.injEq] at hv
    exact hv ▸ ha

/-- **A condition under which one step keeps an invariant, and only then, is the
condition under which every state of a run has it.** -/
theorem exec_always_iff {step : σ → ℓ → Option σ} {P : σ → ℓ → Prop} {I : σ → Prop}
    (hstep : ∀ s l t, I s → step s l = some t → (I t ↔ P s l)) :
    ∀ {ls : List ℓ} {s t : σ}, I s → exec step s ls = some t →
      ((∀ n u, exec step s (ls.take n) = some u → I u) ↔ Along step P s ls) := by
  intro ls
  induction ls with
  | nil =>
    intro s t hs _
    refine ⟨fun _ => trivial, ?_⟩
    intro _ n u hu
    rw [List.take_nil, exec_nil, Option.some.injEq] at hu
    exact hu ▸ hs
  | cons l ls ih =>
    intro s t hs h
    obtain ⟨u, hu, hrest⟩ := exec_cons_some.mp h
    constructor
    · intro hall
      have hIu : I u := hall 1 u (exec_cons_some.mpr ⟨u, hu, rfl⟩)
      refine ⟨(hstep s l u hs hu).mp hIu, ?_⟩
      intro v hv
      rw [hu, Option.some.injEq] at hv
      subst hv
      refine (ih hIu hrest).mp fun n v hv => hall (n + 1) v ?_
      exact exec_cons_some.mpr ⟨u, hu, hv⟩
    · rintro ⟨hP, hrest'⟩ n v hv
      have hIu := (hstep s l u hs hu).mpr hP
      cases n with
      | zero =>
        rw [List.take_zero, exec_nil, Option.some.injEq] at hv
        exact hv ▸ hs
      | succ n =>
        obtain ⟨u', hu', hv⟩ := exec_cons_some.mp hv
        rw [hu, Option.some.injEq] at hu'
        subst hu'
        exact (ih hIu hrest).mpr (hrest' u hu) n v hv

end ZuCpp.Lib
