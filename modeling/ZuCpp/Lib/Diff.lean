import Mathlib.Data.List.Basic
import Mathlib.Data.List.Nodup
import Mathlib.Data.List.Perm.Basic
import Mathlib.Data.Prod.Basic

/-!
# Dictionaries, and comparing two lists by key

A `Dict` keeps its keys in the order they were first put in, and the value that was put in
last.  Two lists are compared by filing each in a dictionary, an element under its key,
and asking of each key what it is filed under in the one and in the other.

What a list files under a key is the last element that has it, `lastOf`, so
`mem_gone`, `mem_arrived` and `mem_changed` say what the comparison answers for any two
lists.  It is the difference of the two when no list has two elements of one key; where a
list has, the earlier one is compared with nothing.
-/

namespace ZuCpp.Lib

structure Dict (κ ν : Type*) where
  items : List (κ × ν)
  nodup : (items.map Prod.fst).Nodup

namespace Dict

variable {κ ν : Type*} [DecidableEq κ]

def keys (d : Dict κ ν) : List κ := d.items.map Prod.fst

def get (d : Dict κ ν) (k : κ) : Option ν := (d.items.find? fun p => p.1 = k).map Prod.snd

def overwrite (k : κ) (v : ν) (items : List (κ × ν)) : List (κ × ν) :=
  items.map fun p => if p.1 = k then (p.1, v) else p

omit [DecidableEq κ] in
theorem mem_keys {d : Dict κ ν} {k : κ} : k ∈ d.keys ↔ ∃ v, (k, v) ∈ d.items := by
  rw [keys, List.mem_map]
  constructor
  · rintro ⟨⟨k, v⟩, h, rfl⟩
    exact ⟨v, h⟩
  · rintro ⟨v, h⟩
    exact ⟨(k, v), h, rfl⟩

theorem map_fst_overwrite (k : κ) (v : ν) (items : List (κ × ν)) :
    (overwrite k v items).map Prod.fst = items.map Prod.fst := by
  rw [overwrite, List.map_map]
  apply List.map_congr_left
  intro p _
  rw [Function.comp_apply]
  split <;> rfl

def set (d : Dict κ ν) (k : κ) (v : ν) : Dict κ ν :=
  if h : k ∈ d.keys then
    { items := overwrite k v d.items
      nodup := by rw [map_fst_overwrite]; exact d.nodup }
  else
    { items := d.items ++ [(k, v)]
      nodup := by
        rw [List.map_append]
        exact List.Nodup.append d.nodup (List.nodup_singleton k)
          (List.disjoint_singleton.mpr h) }

def ofList (ps : List (κ × ν)) : Dict κ ν :=
  ps.foldl (fun d p => d.set p.1 p.2) ⟨[], List.nodup_nil⟩

theorem mem_items {d : Dict κ ν} {k : κ} {v : ν} : (k, v) ∈ d.items ↔ d.get k = some v := by
  obtain ⟨items, nodup⟩ := d
  rw [get]
  induction items with
  | nil => simp
  | cons p items ih =>
    rw [List.map_cons, List.nodup_cons] at nodup
    rw [List.mem_cons, List.find?_cons, ih nodup.2]
    by_cases hp : p.1 = k
    · subst hp
      have hno : items.find? (fun q => q.1 = p.1) = none := by
        rw [List.find?_eq_none]
        intro q hq heq
        exact nodup.1 (List.mem_map.mpr ⟨q, hq, of_decide_eq_true heq⟩)
      simp only [hno, Option.map_none, reduceCtorEq, or_false, decide_true, Option.map_some,
        Option.some.injEq]
      rw [Prod.ext_iff, eq_comm (a := v)]
      exact and_iff_right rfl
    · have hne : ¬ (k, v) = p := fun h => hp (by rw [← h])
      rw [decide_eq_false hp]
      exact or_iff_right hne

theorem find?_overwrite {k j : κ} (v : ν) (hj : j ≠ k) (items : List (κ × ν)) :
    (overwrite k v items).find? (fun p => p.1 = j) = items.find? fun p => p.1 = j := by
  induction items with
  | nil => rfl
  | cons p items ih =>
    rw [overwrite, List.map_cons, List.find?_cons, List.find?_cons]
    by_cases hp : p.1 = k
    · have hpj : ¬ p.1 = j := fun h => hj (h.symm.trans hp)
      rw [if_pos hp, decide_eq_false hpj]
      exact ih
    · rw [if_neg hp]
      split
      · rfl
      · exact ih

theorem get_set (d : Dict κ ν) (k : κ) (v : ν) (j : κ) :
    (d.set k v).get j = if j = k then some v else d.get j := by
  by_cases hj : j = k
  · subst hj
    rw [if_pos rfl, ← mem_items, set]
    split
    · rename_i hmem
      obtain ⟨u, hu⟩ := mem_keys.mp hmem
      refine List.mem_map.mpr ⟨(j, u), hu, ?_⟩
      rw [if_pos rfl]
    · exact List.mem_append_right _ (List.mem_singleton.mpr rfl)
  · rw [if_neg hj, set]
    split
    · rw [get, get, find?_overwrite v hj]
    · rw [get, get, List.find?_append]
      have hno : [(k, v)].find? (fun p => p.1 = j) = none := by
        rw [List.find?_eq_none]
        intro p hp heq
        rw [List.mem_singleton.mp hp] at heq
        exact hj (of_decide_eq_true heq).symm
      rw [hno, Option.or_none]

theorem get_foldl_set (ps : List (κ × ν)) : ∀ (d : Dict κ ν) (k : κ),
    (ps.foldl (fun d p => d.set p.1 p.2) d).get k
      = ((ps.reverse.find? fun p => p.1 = k).map Prod.snd).or (d.get k) := by
  induction ps with
  | nil =>
    intro d k
    rfl
  | cons p ps ih =>
    intro d k
    rw [List.foldl_cons, ih, get_set, List.reverse_cons, List.find?_append]
    cases ps.reverse.find? fun q => decide (q.1 = k) with
    | some q => rfl
    | none =>
      rw [Option.map_none, Option.none_or, Option.none_or, List.find?_cons, List.find?_nil]
      by_cases hp : p.1 = k
      · rw [if_pos hp.symm, decide_eq_true hp]
        rfl
      · rw [if_neg fun h => hp h.symm, decide_eq_false hp]
        rfl

theorem get_ofList (ps : List (κ × ν)) (k : κ) :
    (ofList ps).get k = (ps.reverse.find? fun p => p.1 = k).map Prod.snd := by
  rw [ofList, get_foldl_set]
  exact Option.or_none

end Dict

/-! ### Comparing two lists -/

section Diff

variable {α κ : Type*} [DecidableEq κ] (key : α → κ)

def filed (l : List α) : Dict κ α := .ofList (l.map fun a => (key a, a))

def lastOf (l : List α) (k : κ) : Option α := l.reverse.find? fun a => key a = k

theorem get_filed (l : List α) (k : κ) : (filed key l).get k = lastOf key l k := by
  rw [filed, Dict.get_ofList, lastOf, ← List.map_reverse, List.find?_map, Option.map_map]
  exact Option.map_id'

theorem mem_items_filed {l : List α} {k : κ} {a : α} :
    (k, a) ∈ (filed key l).items ↔ lastOf key l k = some a := by
  rw [Dict.mem_items, get_filed]

theorem lastOf_some {l : List α} {k : κ} {a : α} (h : lastOf key l k = some a) :
    a ∈ l ∧ key a = k :=
  ⟨List.mem_reverse.mp (List.mem_of_find?_eq_some h),
    of_decide_eq_true (List.find?_some (p := fun a => decide (key a = k)) h)⟩

theorem lastOf_eq_none {l : List α} {k : κ} : lastOf key l k = none ↔ ∀ a ∈ l, key a ≠ k := by
  rw [lastOf, List.find?_eq_none]
  simp only [List.mem_reverse, decide_eq_true_eq, ne_eq]

/-- Where no two elements have one key, an element is the last of its own. -/
theorem lastOf_of_distinct {l : List α} (hl : ∀ a ∈ l, ∀ b ∈ l, key a = key b → a = b) {a : α}
    (ha : a ∈ l) : lastOf key l (key a) = some a := by
  cases h : lastOf key l (key a) with
  | none => exact absurd rfl ((lastOf_eq_none key).mp h a ha)
  | some b =>
    obtain ⟨hb, hk⟩ := lastOf_some key h
    rw [hl b hb a ha hk]

structure Diff (α : Type*) where
  gone : List α
  arrived : List α
  changed : List (α × α)
  deriving DecidableEq

variable [DecidableEq α]

/-- The comparison of the list that was with the one that is now. -/
def diff (was now : List α) : Diff α :=
  let before := filed key was
  let after := filed key now
  { gone := before.items.filterMap fun p => if (after.get p.1).isNone then some p.2 else none
    arrived := after.items.filterMap fun p => if (before.get p.1).isNone then some p.2 else none
    changed := before.items.filterMap fun p =>
      (after.get p.1).bind fun b => if p.2 ≠ b then some (p.2, b) else none }

variable {key} {was now : List α}

theorem mem_gone {a : α} : a ∈ (diff key was now).gone ↔
    lastOf key was (key a) = some a ∧ lastOf key now (key a) = none := by
  simp only [diff, List.mem_filterMap, Prod.exists, mem_items_filed, get_filed,
    Option.isNone_iff_eq_none, Option.ite_none_right_eq_some, Option.some.injEq]
  constructor
  · rintro ⟨k, b, hb, hno, rfl⟩
    rw [(lastOf_some key hb).2]
    exact ⟨hb, hno⟩
  · rintro ⟨ha, hno⟩
    exact ⟨key a, a, ha, hno, rfl⟩

theorem mem_arrived {a : α} : a ∈ (diff key was now).arrived ↔
    lastOf key now (key a) = some a ∧ lastOf key was (key a) = none := by
  -- what arrived is what is gone the other way about
  have h : a ∈ (diff key now was).gone ↔ _ := mem_gone
  exact h

theorem mem_changed {a b : α} : (a, b) ∈ (diff key was now).changed ↔
    key a = key b ∧ lastOf key was (key a) = some a ∧ lastOf key now (key b) = some b ∧ a ≠ b := by
  simp only [diff, List.mem_filterMap, Prod.exists, mem_items_filed, get_filed,
    Option.bind_eq_some_iff, ne_eq, ite_not, Option.ite_none_left_eq_some, Option.some.injEq,
    Prod.mk.injEq]
  constructor
  · rintro ⟨k, a, ha, b, hb, hne, rfl, rfl⟩
    have hka := (lastOf_some key ha).2
    have hkb := (lastOf_some key hb).2
    rw [hka, hkb]
    exact ⟨rfl, ha, hb, hne⟩
  · rintro ⟨hk, ha, hb, hne⟩
    rw [← hk] at hb
    exact ⟨key a, a, ha, b, hb, hne, rfl, rfl⟩

/-- **Nothing is reported exactly when every key is filed alike.** -/
theorem diff_nil_iff :
    (diff key was now).gone = [] ∧ (diff key was now).arrived = [] ∧
      (diff key was now).changed = [] ↔ ∀ k, lastOf key was k = lastOf key now k := by
  simp only [List.eq_nil_iff_forall_not_mem]
  constructor
  · rintro ⟨hgone, harrived, hchanged⟩ k
    cases ha : lastOf key was k with
    | none =>
      cases hb : lastOf key now k with
      | none => rfl
      | some b =>
        obtain rfl := (lastOf_some key hb).2
        exact absurd (mem_arrived.mpr ⟨hb, ha⟩) (harrived b)
    | some a =>
      obtain rfl := (lastOf_some key ha).2
      cases hb : lastOf key now (key a) with
      | none => exact absurd (mem_gone.mpr ⟨ha, hb⟩) (hgone a)
      | some b =>
        have hk := (lastOf_some key hb).2
        by_contra hne
        rw [← hk] at hb
        exact hchanged (a, b) (mem_changed.mpr ⟨hk.symm, ha, hb, fun h => hne (by rw [h])⟩)
  · intro h
    refine ⟨?_, ?_, ?_⟩
    · intro a ha
      obtain ⟨h1, h2⟩ := mem_gone.mp ha
      rw [h, h2] at h1
      cases h1
    · intro a ha
      obtain ⟨h1, h2⟩ := mem_arrived.mp ha
      rw [← h, h2] at h1
      cases h1
    · rintro ⟨a, b⟩ hab
      obtain ⟨hk, h1, h2, hne⟩ := mem_changed.mp hab
      rw [h, hk, h2, Option.some.injEq] at h1
      exact hne h1.symm

/-! ### No key is reported twice -/

omit [DecidableEq α] in
theorem map_key_filed (l : List α) : (filed key l).items.map (fun p => key p.2)
    = (filed key l).keys := by
  apply List.map_congr_left
  rintro ⟨k, a⟩ h
  exact (lastOf_some key ((mem_items_filed key).mp h)).2

omit [DecidableEq α] in
theorem keys_filterMap_sublist {β : Type*} (l : List α) (f : κ × α → Option β) (g : β → κ)
    (hg : ∀ p b, f p = some b → g b = key p.2) :
    List.Sublist (((filed key l).items.filterMap f).map g) (filed key l).keys := by
  rw [← map_key_filed, List.map_filterMap]
  induction (filed key l).items with
  | nil => exact List.Sublist.slnil
  | cons p items ih =>
    rw [List.filterMap_cons, List.map_cons]
    cases h : f p with
    | none => exact ih.cons _
    | some b =>
      simp only [Option.map_some]
      rw [hg p b h]
      exact ih.cons_cons _

omit [DecidableEq α] in
theorem nodup_keys_filed (l : List α) : (filed key l).keys.Nodup := (filed key l).nodup

theorem nodup_gone : ((diff key was now).gone.map key).Nodup := by
  refine (nodup_keys_filed was).sublist (keys_filterMap_sublist was _ key ?_)
  intro p b h
  split at h
  · rw [Option.some.injEq] at h
    rw [h]
  · cases h

theorem nodup_arrived : ((diff key was now).arrived.map key).Nodup := by
  have h : ((diff key now was).gone.map key).Nodup := nodup_gone
  exact h

theorem nodup_changed : ((diff key was now).changed.map fun p => key p.1).Nodup := by
  refine (nodup_keys_filed was).sublist (keys_filterMap_sublist was _ _ ?_)
  intro p b h
  obtain ⟨c, -, h⟩ := Option.bind_eq_some_iff.mp h
  split at h
  · rw [Option.some.injEq] at h
    rw [← h]
  · cases h

/-- **No key is reported twice**, in one answer or in two. -/
theorem nodup_reported : ((diff key was now).gone.map key ++ (diff key was now).arrived.map key ++
    (diff key was now).changed.map fun p => key p.1).Nodup := by
  rw [List.nodup_append', List.nodup_append']
  refine ⟨⟨nodup_gone, nodup_arrived, ?_⟩, nodup_changed, ?_⟩
  · intro k hk hk'
    obtain ⟨a, ha, rfl⟩ := List.mem_map.mp hk
    obtain ⟨b, hb, hab⟩ := List.mem_map.mp hk'
    have h1 := (mem_gone.mp ha).1
    rw [← hab, (mem_arrived.mp hb).2] at h1
    cases h1
  · intro k hk hk'
    obtain ⟨⟨c, d⟩, hcd, rfl⟩ := List.mem_map.mp hk'
    obtain ⟨heq, hc, hd, -⟩ := mem_changed.mp hcd
    rcases List.mem_append.mp hk with hk | hk
    · obtain ⟨a, ha, hac⟩ := List.mem_map.mp hk
      have h1 := (mem_gone.mp ha).2
      rw [hac, heq, hd] at h1
      cases h1
    · obtain ⟨b, hb, hbc⟩ := List.mem_map.mp hk
      have h1 := (mem_arrived.mp hb).2
      rw [hbc, hc] at h1
      cases h1

/-! ### The other way about, and back -/

theorem mem_changed_swap {a b : α} :
    (b, a) ∈ (diff key now was).changed ↔ (a, b) ∈ (diff key was now).changed := by
  rw [mem_changed, mem_changed]
  constructor
  · rintro ⟨hk, hb, ha, hne⟩
    exact ⟨hk.symm, ha, hb, hne.symm⟩
  · rintro ⟨hk, ha, hb, hne⟩
    exact ⟨hk.symm, hb, ha, hne.symm⟩

/-- **The other way about, the comparison is the same with the roles exchanged.** -/
theorem diff_swap : (diff key now was).gone = (diff key was now).arrived ∧
    (diff key now was).arrived = (diff key was now).gone ∧
    (diff key now was).changed.Perm ((diff key was now).changed.map Prod.swap) := by
  refine ⟨rfl, rfl, ?_⟩
  refine (List.perm_ext_iff_of_nodup nodup_changed.of_map
    (nodup_changed.of_map.map Prod.swap_injective)).mpr ?_
  rintro ⟨b, a⟩
  rw [mem_changed_swap, List.mem_map]
  constructor
  · intro h
    exact ⟨(a, b), h, rfl⟩
  · rintro ⟨⟨c, d⟩, h, hcd⟩
    cases hcd
    exact h

/-- The list that was, with what the comparison says put into effect. -/
def Diff.patch (d : Diff α) (was : List α) : List α :=
  (was.filter fun a => a ∉ d.gone ∧ a ∉ d.changed.map Prod.fst) ++ d.arrived ++
    d.changed.map Prod.snd

theorem Diff.patch_congr {d d' : Diff α} (hgone : d.gone.Perm d'.gone)
    (harrived : d.arrived.Perm d'.arrived) (hchanged : d.changed.Perm d'.changed) (was : List α) :
    (d.patch was).Perm (d'.patch was) := by
  have hkept : (was.filter fun a => a ∉ d.gone ∧ a ∉ d.changed.map Prod.fst)
      = was.filter fun a => a ∉ d'.gone ∧ a ∉ d'.changed.map Prod.fst := by
    apply List.filter_congr
    intro a _
    rw [decide_eq_decide, hgone.mem_iff, (hchanged.map Prod.fst).mem_iff]
  rw [patch, patch, hkept]
  exact ((List.Perm.refl _).append harrived).append (hchanged.map Prod.snd)

section Distinct

variable (hwas : (was.map key).Nodup) (hnow : (now.map key).Nodup)

omit [DecidableEq α] in
include hwas in
theorem lastOf_iff_of_nodup {a : α} {k : κ} : lastOf key was k = some a ↔ a ∈ was ∧ key a = k := by
  refine ⟨lastOf_some key, ?_⟩
  rintro ⟨ha, rfl⟩
  exact lastOf_of_distinct key (fun a ha b hb h => List.inj_on_of_nodup_map hwas ha hb h) ha

include hwas hnow in
/-- **What is gone or changed is what was and is not any more.** -/
theorem gone_or_changed {a : α} :
    (a ∈ (diff key was now).gone ∨ ∃ b, (a, b) ∈ (diff key was now).changed) ↔
      a ∈ was ∧ a ∉ now := by
  simp only [mem_gone, mem_changed, lastOf_iff_of_nodup hwas, lastOf_iff_of_nodup hnow, and_true]
  constructor
  · rintro (⟨ha, hno⟩ | ⟨b, hk, ha, hb, hne⟩)
    · exact ⟨ha, fun h => (lastOf_eq_none key).mp hno a h rfl⟩
    · exact ⟨ha, fun h => hne (List.inj_on_of_nodup_map hnow h hb hk)⟩
  · rintro ⟨ha, hno⟩
    cases hb : lastOf key now (key a) with
    | none => exact Or.inl ⟨ha, rfl⟩
    | some b =>
      obtain ⟨hmem, hk⟩ := lastOf_some key hb
      refine Or.inr ⟨b, hk.symm, ha, hmem, ?_⟩
      intro h
      exact hno (h ▸ hmem)

include hwas hnow in
/-- **What arrived or is the new half of a change is what is now and was not.** -/
theorem arrived_or_changed {b : α} :
    (b ∈ (diff key was now).arrived ∨ ∃ a, (a, b) ∈ (diff key was now).changed) ↔
      b ∈ now ∧ b ∉ was := by
  rw [← gone_or_changed hnow hwas]
  exact or_congr Iff.rfl (exists_congr fun a => mem_changed_swap.symm)

include hwas hnow in
/-- **The comparison is enough to make the one list of the other.** -/
theorem patch_perm : ((diff key was now).patch was).Perm now := by
  have hout := fun a => gone_or_changed hwas hnow (a := a)
  have hin := fun b => arrived_or_changed hwas hnow (b := b)
  have hfst : ∀ a, a ∈ (diff key was now).changed.map Prod.fst ↔
      ∃ b, (a, b) ∈ (diff key was now).changed := fun a => by
    simp only [List.mem_map, Prod.exists, exists_and_right, exists_eq_right]
  have hsnd : ∀ b, b ∈ (diff key was now).changed.map Prod.snd ↔
      ∃ a, (a, b) ∈ (diff key was now).changed := fun b => by
    simp only [List.mem_map, Prod.exists, exists_eq_right]
  have hnodup : ((diff key was now).changed.map Prod.snd).Nodup := by
    -- the keys of the new halves are those of the old ones
    refine List.Nodup.of_map key ?_
    have hkeys : ((diff key was now).changed.map Prod.snd).map key
        = (diff key was now).changed.map fun p => key p.1 := by
      rw [List.map_map]
      apply List.map_congr_left
      rintro ⟨a, b⟩ hab
      exact (mem_changed.mp hab).1.symm
    rw [hkeys]
    exact nodup_changed
  have hkept : ∀ a, a ∈ was.filter (fun a => a ∉ (diff key was now).gone ∧
      a ∉ (diff key was now).changed.map Prod.fst) ↔ a ∈ was ∧ a ∈ now := by
    intro a
    rw [List.mem_filter, decide_eq_true_eq, hfst, ← not_or, hout]
    tauto
  refine (List.perm_ext_iff_of_nodup ?_ hnow.of_map).mpr ?_
  · rw [Diff.patch, List.nodup_append', List.nodup_append']
    refine ⟨⟨hwas.of_map.filter _, nodup_arrived.of_map, ?_⟩, hnodup, ?_⟩
    · intro a ha ha'
      exact ((hin a).mp (Or.inl ha')).2 ((hkept a).mp ha).1
    · intro b hb hb'
      obtain ⟨a, hab⟩ := (hsnd b).mp hb'
      rcases List.mem_append.mp hb with hb | hb
      · exact ((hin b).mp (Or.inr ⟨a, hab⟩)).2 ((hkept b).mp hb).1
      · have h1 := (mem_arrived.mp hb).2
        obtain ⟨hk, ha, -⟩ := mem_changed.mp hab
        rw [← hk, ha] at h1
        cases h1
  · intro a
    rw [Diff.patch, List.mem_append, List.mem_append, hkept, hsnd, or_assoc, hin]
    tauto

end Distinct

end Diff

end ZuCpp.Lib
