import ZuCpp.Printing

/-!
# A failure on one line

`to_string(Error)` writes the code and the place in front of the message, for a log.  It says
neither the offset of the place nor anything else the failure carries.

**A line says which code, where, and what** (`toString_alike_iff`): two failures that have a code
are written alike exactly when the codes, the lines and columns, and the messages are the same.
-/

namespace ZuCpp

open Lib

def Position.toString (p : Position) : Str :=
  ascii "line " ++ numberText p.line.toNat ++ ascii ", column " ++ numberText p.column.toNat

def Error.toString (e : Error) : Str :=
  let out := e.code.getD []
  let out := match e.position with
    | none => out
    | some p => (if out.isEmpty then out else out ++ ascii " ") ++ ascii "at " ++ p.toString
  let out := if out.isEmpty then out else out ++ ascii ": "
  out ++ e.message

def Position.place (p : Position) : UInt32 × UInt32 := (p.line, p.column)

/-- It has a code, as GQLSTATUS has them: one word without a colon. -/
structure Error.HasCode (e : Error) (c : Str) : Prop where
  code : e.code = some c
  word : c ≠ []
  noSpace : ' '.toUInt8 ∉ c
  noColon : ':'.toUInt8 ∉ c

def Error.behind (e : Error) : Str :=
  match e.position with
  | none => ':'.toUInt8 :: ' '.toUInt8 :: e.message
  | some p => ' '.toUInt8 :: (ascii "at line " ++ (numberText p.line.toNat ++
      ','.toUInt8 :: (ascii " column " ++ (numberText p.column.toNat ++
        ':'.toUInt8 :: ' '.toUInt8 :: e.message))))

namespace Error

variable {e e' : Error} {c c' : Str}

theorem toString_eq (h : e.HasCode c) : e.toString = c ++ e.behind := by
  have hcode : e.code.getD [] = c := by
    rw [h.code]
    rfl
  have hempty : c.isEmpty = false := by
    cases c with
    | nil => exact absurd rfl h.word
    | cons x c => rfl
  rw [toString, behind, hcode]
  cases e.position with
  | none => simp [hempty, ascii]
  | some p => simp [hempty, ascii, Position.toString]

theorem behind_cons (e : Error) : ∃ x rest, e.behind = x :: rest ∧
    decide (x ≠ ' '.toUInt8 ∧ x ≠ ':'.toUInt8) = false := by
  rw [behind]
  cases e.position with
  | none => exact ⟨_, _, rfl, by decide⟩
  | some p => exact ⟨_, _, rfl, by decide⟩

theorem code_of_line (h : e.HasCode c) (h' : e'.HasCode c')
    (heq : c ++ e.behind = c' ++ e'.behind) : c = c' ∧ e.behind = e'.behind := by
  have hword : ∀ {e : Error} {c : Str}, e.HasCode c →
      ∀ y ∈ c, decide (y ≠ ' '.toUInt8 ∧ y ≠ ':'.toUInt8) = true := by
    intro e c h y hy
    exact decide_eq_true ⟨fun hsp => h.noSpace (hsp ▸ hy), fun hco => h.noColon (hco ▸ hy)⟩
  obtain ⟨x, rest, hbehind, hx⟩ := e.behind_cons
  obtain ⟨x', rest', hbehind', hx'⟩ := e'.behind_cons
  rw [hbehind, hbehind'] at heq ⊢
  obtain ⟨hc, rfl, rfl⟩ := eq_of_stop (hword h) (hword h') hx hx' heq
  exact ⟨hc, rfl⟩

/-- The place is read off its two numbers, and the message is the rest. -/
theorem place_of_behind (h : e.behind = e'.behind) :
    e.position.map Position.place = e'.position.map Position.place ∧ e.message = e'.message := by
  rw [behind, behind] at h
  cases hp : e.position with
  | none =>
    cases hp' : e'.position with
    | none =>
      rw [hp, hp'] at h
      exact ⟨rfl, (List.cons.inj (List.cons.inj h).2).2⟩
    | some p' =>
      rw [hp, hp'] at h
      exact absurd (List.cons.inj h).1 (by decide)
  | some p =>
    cases hp' : e'.position with
    | none =>
      rw [hp, hp'] at h
      exact absurd (List.cons.inj h).1 (by decide)
    | some p' =>
      rw [hp, hp'] at h
      obtain ⟨hline, hrest⟩ := eq_of_first (not_mem_natText (by decide) p.line.toNat)
        (not_mem_natText (by decide) p'.line.toNat)
        (List.append_cancel_left (List.cons.inj h).2)
      obtain ⟨hcolumn, hmessage⟩ := eq_of_first (not_mem_natText (by decide) p.column.toNat)
        (not_mem_natText (by decide) p'.column.toNat) (List.append_cancel_left hrest)
      have hl := UInt32.toNat_inj.mp (Int.ofNat.inj (numberText_injective hline))
      have hc := UInt32.toNat_inj.mp (Int.ofNat.inj (numberText_injective hcolumn))
      refine ⟨?_, (List.cons.inj hmessage).2⟩
      rw [Option.map_some, Option.map_some, Position.place, Position.place, hl, hc]

theorem behind_congr (hplace : e.position.map Position.place = e'.position.map Position.place)
    (hmessage : e.message = e'.message) : e.behind = e'.behind := by
  rw [behind, behind, hmessage]
  cases hp : e.position with
  | none =>
    rw [hp] at hplace
    rw [Option.map_eq_none_iff.mp hplace.symm]
  | some p =>
    rw [hp] at hplace
    obtain ⟨p', hp', hpp⟩ := Option.map_eq_some_iff.mp hplace.symm
    obtain ⟨hl, hc⟩ := Prod.mk.inj hpp
    rw [hp']
    dsimp only
    rw [hl, hc]

/-- **A line says which code, where, and what.**  Two failures that have a code are written alike
if and only if they have the same code, the same line and column, or both none, and the same
message; the offset, the condition, the excerpt, the subject, the severity and the status are not
in the line. -/
theorem toString_alike_iff (h : e.HasCode c) (h' : e'.HasCode c') :
    e.toString = e'.toString ↔ e.code = e'.code ∧
      e.position.map Position.place = e'.position.map Position.place ∧ e.message = e'.message := by
  rw [toString_eq h, toString_eq h', h.code, h'.code, Option.some.injEq]
  constructor
  · intro heq
    obtain ⟨hc, hbehind⟩ := code_of_line h h' heq
    exact ⟨hc, place_of_behind hbehind⟩
  · rintro ⟨rfl, hplace, hmessage⟩
    rw [behind_congr hplace hmessage]

def syntaxAt (offset : UInt32) (retryable : Bool) : Error where
  status := .error
  message := ascii "unexpected token"
  code := some (ascii "42001")
  position := some ⟨1, 8, offset⟩
  retryable := retryable

theorem toString_alike_iff_syntaxAt :
    (syntaxAt 7 false).toString = (syntaxAt 9 true).toString := by
  have h : ∀ offset retryable, (syntaxAt offset retryable).HasCode (ascii "42001") :=
    fun _ _ => ⟨rfl, by decide, by decide, by decide⟩
  exact (toString_alike_iff (h 7 false) (h 9 true)).mpr ⟨rfl, rfl, rfl⟩

end Error

end ZuCpp
