import Mathlib.Data.List.Basic

/-!
# Lists cut into pieces

A piece is a place in a list and a length.  `Tiles i ps n` says that the pieces `ps` follow one
another from `i` up to `n`; then no piece reaches beyond `n` (`Tiles.le_of_mem`), and one after
the other they are the list from `i` on (`Tiles.flatMap_piece`).
-/

namespace ZuCpp.Lib

variable {α : Type*}

/-- The pieces follow one another, from `i` up to `n`. -/
def Tiles : Nat → List (Nat × Nat) → Nat → Prop
  | i, [], n => i = n
  | i, p :: ps, n => p.1 = i ∧ Tiles (i + p.2) ps n

def piece (l : List α) (p : Nat × Nat) : List α := (l.drop p.1).take p.2

namespace Tiles

variable {i n : Nat} {ps : List (Nat × Nat)}

theorem le (h : Tiles i ps n) : i ≤ n := by
  induction ps generalizing i with
  | nil => exact Nat.le_of_eq h
  | cons p ps ih =>
    have := ih h.2
    omega

theorem le_of_mem (h : Tiles i ps n) {p : Nat × Nat} (hp : p ∈ ps) : p.1 + p.2 ≤ n := by
  induction ps generalizing i with
  | nil => simp at hp
  | cons q ps ih =>
    obtain ⟨hq, hrest⟩ := h
    rcases List.mem_cons.mp hp with rfl | hp
    · have := hrest.le
      omega
    · exact ih hrest hp

/-- **The pieces of a tiling, one after the other, are the list.** -/
theorem flatMap_piece {l : List α} (h : Tiles i ps l.length) : ps.flatMap (piece l) = l.drop i := by
  induction ps generalizing i with
  | nil => simp [show i = l.length from h]
  | cons p ps ih =>
    obtain ⟨rfl, hrest⟩ := h
    rw [List.flatMap_cons, ih hrest, piece, ← List.drop_drop, List.take_append_drop]

end Tiles

theorem length_piece {l : List α} {p : Nat × Nat} (h : p.1 + p.2 ≤ l.length) :
    (piece l p).length = p.2 := by
  rw [piece, List.length_take, List.length_drop]
  omega

end ZuCpp.Lib
