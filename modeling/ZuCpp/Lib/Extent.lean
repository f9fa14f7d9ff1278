import Mathlib.Order.Interval.Set.Basic
import Mathlib.Data.List.Forall2

/-!
# Extents of memory

An extent is a pointer and a number of bytes.  A callee reads extents and its caller has
passed others: a read is `Within` what was passed when every address of the one is an
address of the other, and for two extents at one pointer that is a comparison of their
lengths (`Extent.within_iff`).
-/

namespace ZuCpp.Lib

structure Extent where
  pointer : Nat
  bytes : Nat
  deriving DecidableEq, Repr

namespace Extent

def addresses (e : Extent) : Set Nat := Set.Ico e.pointer (e.pointer + e.bytes)

def Within (e f : Extent) : Prop := e.addresses ⊆ f.addresses

/-- **At one pointer, the shorter extent is within the longer one.** -/
theorem within_iff {p m n : Nat} : Within ⟨p, m⟩ ⟨p, n⟩ ↔ m ≤ n := by
  constructor
  · intro h
    by_contra hlt
    have hread : p + n ∈ addresses ⟨p, m⟩ := ⟨by simp, by simpa using hlt⟩
    have hpassed := (h hread).2
    simp only [lt_self_iff_false] at hpassed
  · intro h
    exact Set.Ico_subset_Ico le_rfl (Nat.add_le_add_left h p)

theorem within_rfl {e : Extent} : Within e e := subset_rfl

/-- **What reads each within its own span reads nothing outside the spans.** -/
theorem mem_passed {reads passed : List Extent} (h : List.Forall₂ Within reads passed) {a : Nat}
    {e : Extent} (he : e ∈ reads) (ha : a ∈ e.addresses) : ∃ f ∈ passed, a ∈ f.addresses := by
  induction h with
  | nil => exact absurd he List.not_mem_nil
  | cons hw _ ih =>
    rcases List.mem_cons.mp he with rfl | he
    · exact ⟨_, List.mem_cons_self, hw ha⟩
    · obtain ⟨f, hf, haf⟩ := ih he
      exact ⟨f, List.mem_cons_of_mem _ hf, haf⟩

end Extent

end ZuCpp.Lib
