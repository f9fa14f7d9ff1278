import Mathlib.Data.List.Basic

/-!
# Nested values, and what stands around one

A `Nest` is a value with others nested in it, to any depth.  `nodes` lists the values, each
with the ones around it.  **What holds of a value holds of all around it as soon as it is
never gained inwards**: as soon as it holds directly around each value it holds of
(`all_around_iff`).
-/

namespace ZuCpp.Lib

variable {α : Type*}

inductive Nest (α : Type*)
  | node (value : α) (inner : List (Nest α))

namespace Nest

mutual

/-- The values, each with the ones around it, innermost first. -/
def nodesIn (around : List α) : Nest α → List (List α × α)
  | node a inner => (around, a) :: nodesAllIn (a :: around) inner

def nodesAllIn (around : List α) : List (Nest α) → List (List α × α)
  | [] => []
  | t :: ts => t.nodesIn around ++ nodesAllIn around ts

end

def nodes (ts : List (Nest α)) : List (List α × α) := nodesAllIn [] ts

mutual

theorem around_nodesIn {around bs : List α} {a b : α} : ∀ (t : Nest α),
    (b :: bs, a) ∈ t.nodesIn around → b :: bs = around ∨ (bs, b) ∈ t.nodesIn around
  | node c inner, h => by
    rw [nodesIn] at h ⊢
    rcases List.mem_cons.mp h with h | h
    · exact Or.inl (Prod.mk.inj h).1
    · right
      rcases around_nodesAllIn inner h with h | h
      · rw [List.cons.injEq] at h
        rw [h.1, h.2]
        exact List.mem_cons_self
      · exact List.mem_cons_of_mem _ h

/-- What is directly around a value is a value itself, within what is around both. -/
theorem around_nodesAllIn {around bs : List α} {a b : α} : ∀ (ts : List (Nest α)),
    (b :: bs, a) ∈ nodesAllIn around ts → b :: bs = around ∨ (bs, b) ∈ nodesAllIn around ts
  | [], h => by
    rw [nodesAllIn] at h
    cases h
  | t :: ts, h => by
    rw [nodesAllIn] at h ⊢
    rcases List.mem_append.mp h with h | h
    · exact (around_nodesIn t h).imp id (List.mem_append_left _)
    · exact (around_nodesAllIn ts h).imp id (List.mem_append_right _)

end

theorem around_nodes {ts : List (Nest α)} {bs : List α} {a b : α}
    (h : (b :: bs, a) ∈ nodes ts) : (bs, b) ∈ nodes ts :=
  (around_nodesAllIn ts h).resolve_left (List.cons_ne_nil b bs)

/-- **What is never gained inwards holds all around.** -/
theorem all_around_iff {p : α → Prop} (ts : List (Nest α)) :
    (∀ n ∈ nodes ts, p n.2 → ∀ b ∈ n.1, p b) ↔
      ∀ n ∈ nodes ts, p n.2 → ∀ b ∈ n.1.head?, p b := by
  constructor
  · intro h n hn ha b hb
    exact h n hn ha b (List.mem_of_mem_head? hb)
  · rintro h ⟨around, a⟩ hn ha
    dsimp only at ha ⊢
    induction around generalizing a with
    | nil => exact nofun
    | cons b bs ih =>
      have hb : p b := h _ hn ha b rfl
      exact List.forall_mem_cons.mpr ⟨hb, ih b (around_nodes hn) hb⟩

end Nest

end ZuCpp.Lib
