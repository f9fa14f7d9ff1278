import Mathlib

/-!
# Overload resolution

A call names candidates and the language picks one.  For each candidate the argument
has an implicit conversion sequence or it is not viable; a sequence is a standard
conversion, or a user-defined conversion followed by a standard one, or it is ambiguous;
and the candidate picked is the one whose sequence is better than that of every other.

* `best`: the element of a list that is better than every other, if there is one.
* `Sequence.Better`: the ranking of conversion sequences.
* `resolve`: the candidate a call is resolved to, `none` when there is no best one.
* `resolve_of_subset`: a call with fewer candidates is resolved to the same one, if it
  still is a candidate.
* `user_of_resolve`: where a user-defined conversion is picked, every viable candidate is
  reached through the same function.
-/

namespace ZuCpp.Lib

section Best

variable {α : Type*} [DecidableEq α] (better : α → α → Prop) [DecidableRel better]

def best (l : List α) : Option α := l.find? fun a => decide (∀ b ∈ l, b ≠ a → better a b)

theorem best_spec {l : List α} {a : α} (h : best better l = some a) :
    a ∈ l ∧ ∀ b ∈ l, b ≠ a → better a b := by
  unfold best at h
  have hbest := List.find?_some h
  exact ⟨List.mem_of_find?_eq_some h, of_decide_eq_true hbest⟩

/-- **Where no two elements are better than each other, the best one is picked.** -/
theorem best_eq_some_iff (hasymm : ∀ a b, better a b → ¬ better b a) {l : List α} {a : α} :
    best better l = some a ↔ a ∈ l ∧ ∀ b ∈ l, b ≠ a → better a b := by
  refine ⟨best_spec better, ?_⟩
  rintro ⟨hmem, hbest⟩
  cases h : best better l with
  | none =>
    have hnone := List.find?_eq_none.mp h a hmem
    exact absurd (decide_eq_true hbest) hnone
  | some b =>
    obtain ⟨hb, hbbest⟩ := best_spec better h
    by_cases hab : b = a
    · rw [hab]
    · exact absurd (hbbest a hmem (Ne.symm hab)) (hasymm _ _ (hbest b hb hab))

end Best

/-- An implicit conversion sequence: the functions of user-defined conversions are of the
type `φ`, and the standard conversions are graded by `σ`, the better one lower. -/
inductive Sequence (φ σ : Type*)
  | standard (s : σ)
  | user (f : φ) (s : σ)
  | ambiguous
  deriving DecidableEq, Repr

namespace Sequence

variable {φ σ : Type*} [LinearOrder σ]

/-- The ranking of conversion sequences: a standard conversion is better than what needs a
user-defined one, and two user-defined conversions are compared only when they are by the
same function. -/
def Better : Sequence φ σ → Sequence φ σ → Prop
  | standard s, standard t => s < t
  | standard _, _ => True
  | user f s, user g t => f = g ∧ s < t
  | _, _ => False

instance [DecidableEq φ] : DecidableRel (Better (φ := φ) (σ := σ))
  | standard s, standard t => inferInstanceAs (Decidable (s < t))
  | standard _, user _ _ => isTrue trivial
  | standard _, ambiguous => isTrue trivial
  | user _ _, standard _ => isFalse id
  | user f s, user g t => inferInstanceAs (Decidable (f = g ∧ s < t))
  | user _ _, ambiguous => isFalse id
  | ambiguous, _ => isFalse id

theorem not_better_of_ambiguous {y : Sequence φ σ} : ¬ Better ambiguous y := id

theorem Better.asymm {x y : Sequence φ σ} (h : Better x y) : ¬ Better y x := by
  cases x with
  | standard s =>
    cases y with
    | standard t => exact lt_asymm h
    | user g t => exact id
    | ambiguous => exact id
  | user f s =>
    cases y with
    | standard t => exact absurd h id
    | user g t => exact fun h' => lt_asymm h.2 h'.2
    | ambiguous => exact absurd h id
  | ambiguous => exact absurd h id

/-- What a user-defined conversion is better than goes through the same function. -/
theorem better_of_user {f : φ} {s : σ} {y : Sequence φ σ} (h : Better (.user f s) y) :
    ∃ t, y = .user f t ∧ s < t := by
  cases y with
  | standard t => exact absurd h id
  | user g t =>
    obtain ⟨rfl, hlt⟩ := h
    exact ⟨t, rfl, hlt⟩
  | ambiguous => exact absurd h id

end Sequence

section Resolve

variable {π φ σ : Type*} [LinearOrder σ]
variable (conv : π → Option (Sequence φ σ)) (template : π → Bool)

/-- The candidate `p` is better than `q`: its conversion is, or neither is and only `q` is
a template. -/
def Preferred (p q : π) : Prop :=
  ∃ x ∈ conv p, ∃ y ∈ conv q,
    x.Better y ∨ (¬ y.Better x ∧ template p = false ∧ template q = true)

theorem Preferred.asymm {conv : π → Option (Sequence φ σ)} {template : π → Bool}
    {p q : π} (h : Preferred conv template p q) :
    ¬ Preferred conv template q p := by
  obtain ⟨x, hx, y, hy, h⟩ := h
  rintro ⟨y', hy', x', hx', h'⟩
  obtain rfl := Option.some.inj (hx.symm.trans hx')
  obtain rfl := Option.some.inj (hy.symm.trans hy')
  rcases h with h | ⟨hn, hp, -⟩
  · rcases h' with h' | ⟨hn', -⟩
    · exact h.asymm h'
    · exact hn' h
  · rcases h' with h' | ⟨-, -, hp'⟩
    · exact hn h'
    · exact absurd (hp.symm.trans hp') (by decide)

variable [DecidableEq π] [DecidableEq φ]

instance : DecidableRel (Preferred conv template) := fun p q =>
  match hp : conv p, hq : conv q with
  | none, _ => isFalse fun ⟨_, hx, _⟩ => nomatch hp.symm.trans hx
  | some _, none => isFalse fun ⟨_, _, _, hy, _⟩ => nomatch hq.symm.trans hy
  | some x, some y =>
    decidable_of_iff (x.Better y ∨ (¬ y.Better x ∧ template p = false ∧ template q = true))
      ⟨fun h => ⟨x, hp, y, hq, h⟩, fun ⟨_, hx, _, hy, h⟩ => by
        obtain rfl := Option.some.inj (hp.symm.trans hx)
        obtain rfl := Option.some.inj (hq.symm.trans hy)
        exact h⟩

def resolve (cands : List π) : Option π :=
  best (Preferred conv template) (cands.filter fun p => (conv p).isSome)

variable {conv template}

theorem resolve_eq_some_iff {cands : List π} {p : π} :
    resolve conv template cands = some p ↔
      p ∈ cands ∧ (conv p).isSome ∧
        ∀ q ∈ cands, (conv q).isSome → q ≠ p → Preferred conv template p q := by
  rw [resolve, best_eq_some_iff _ fun _ _ h => h.asymm]
  simp only [List.mem_filter, and_imp, and_assoc]

/-- **A call with fewer candidates is resolved to the same one**, if that is left. -/
theorem resolve_of_subset {cands fewer : List π} {p : π} (hsub : ∀ q ∈ fewer, q ∈ cands)
    (hp : p ∈ fewer) (h : resolve conv template cands = some p) :
    resolve conv template fewer = some p := by
  rw [resolve_eq_some_iff] at h ⊢
  exact ⟨hp, h.2.1, fun q hq => h.2.2 q (hsub q hq)⟩

theorem resolve_eq_none_of_not_viable {cands : List π} (h : ∀ q ∈ cands, conv q = none) :
    resolve conv template cands = none := by
  cases hr : resolve conv template cands with
  | none => rfl
  | some p =>
    obtain ⟨hp, hv, -⟩ := resolve_eq_some_iff.mp hr
    rw [h p hp] at hv
    exact absurd hv Bool.false_ne_true

/-- What is picked over a candidate that is no template has the better conversion. -/
theorem better_of_resolve {cands : List π} {p q : π} {x y : Sequence φ σ}
    (h : resolve conv template cands = some p) (hx : conv p = some x) (hq : q ∈ cands)
    (hy : conv q = some y) (hne : q ≠ p) (hplain : template q = false) : x.Better y := by
  obtain ⟨x', hx', y', hy', hb⟩ :=
    (resolve_eq_some_iff.mp h).2.2 q hq (by rw [hy]; rfl) hne
  obtain rfl := Option.some.inj (hx.symm.trans hx')
  obtain rfl := Option.some.inj (hy.symm.trans hy')
  rcases hb with hb | ⟨-, -, ht⟩
  · exact hb
  · exact absurd (hplain.symm.trans ht) (by decide)

/-- **Where a user-defined conversion is picked, every viable candidate is reached through
the same function**, but for the templates. -/
theorem user_of_resolve {cands : List π} {p q : π} {f : φ} {s : σ} {y : Sequence φ σ}
    (h : resolve conv template cands = some p) (hx : conv p = some (.user f s)) (hq : q ∈ cands)
    (hy : conv q = some y) (hplain : template q = false) : ∃ t, y = .user f t := by
  by_cases hne : q = p
  · subst hne
    exact ⟨s, Option.some.inj (hy.symm.trans hx)⟩
  · obtain ⟨t, ht, -⟩ := Sequence.better_of_user (better_of_resolve h hx hq hy hne hplain)
    exact ⟨t, ht⟩

end Resolve

end ZuCpp.Lib
