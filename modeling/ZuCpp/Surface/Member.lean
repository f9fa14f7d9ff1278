import ZuCpp.Lib.Words
import Mathlib

/-!
# `docs/surface.py`: one member as a line

The XML that Doxygen writes, the texts that are read out of it, and the line that
`member_entry` files a member under.  A Python `str` is a list of characters, and a
regular expression substitution is a `Pattern` of the library.
-/

namespace ZuCpp.Surface

open Lib

/-! ### Texts -/

abbrev Text := List Char

/-- `str.isspace` of one character, which is what `\s` matches too. -/
def isSpace (c : Char) : Bool :=
  let n := c.toNat
  (9 ≤ n ∧ n ≤ 13) ∨ (28 ≤ n ∧ n ≤ 32) ∨ n = 133 ∨ n = 160 ∨ n = 5760 ∨
    (8192 ≤ n ∧ n ≤ 8202) ∨ n = 8232 ∨ n = 8233 ∨ n = 8239 ∨ n = 8287 ∨ n = 12288

/-- The spaces of Python, and the one that stands between words. -/
def python : Spacing Char where
  space := isSpace
  blank := ' '
  blank_space := by decide

/-- `collapse`: `re.sub(r"\s+", " ", s).strip()`. -/
def collapse (s : Text) : Text := python.collapse s

def split (s : Text) : List Text := python.words s

def rstrip (s : Text) : Text := s.rdropWhile isSpace

def join (sep : String) (parts : List Text) : Text := sep.toList.intercalate parts

def orElse (a b : Text) : Text := if a = [] then b else a

def arrow : Text := " -> ".toList

def base : Text := " : ".toList

/-! ### The XML -/

inductive Element
  | mk (tag : Text) (attrib : List (Text × Text)) (text tail : Text) (children : List Element)

namespace Element

def tag : Element → Text
  | mk tag _ _ _ _ => tag

def ownText : Element → Text
  | mk _ _ text _ _ => text

def tail : Element → Text
  | mk _ _ _ tail _ => tail

def children : Element → List Element
  | mk _ _ _ _ children => children

def get (e : Element) (name : String) : Option Text :=
  match e with
  | mk _ attrib _ _ _ => (attrib.find? fun p => p.1 = name.toList).map Prod.snd

def findall (e : Element) (tag : String) : List Element :=
  e.children.filter fun c => c.tag = tag.toList

def find (e : Element) (tag : String) : Option Element := (e.findall tag).head?

def findtext (e : Element) (tag : String) : Option Text := (e.find tag).map ownText

mutual

def itertext : Element → Text
  | mk _ _ text _ children => text ++ itertexts children

def itertexts : List Element → Text
  | [] => []
  | c :: cs => c.itertext ++ c.tail ++ itertexts cs

end

end Element

/-- `text`: one XML node flattened to the text it renders as. -/
def text : Option Element → Text
  | none => []
  | some node => collapse node.itertext

/-! ### The parts of a line -/

def isPublic (prot : Option Text) : Bool :=
  prot = some "public".toList ∨ prot = some "protected".toList

/-- `entry`: one line of the file, and the name it is filed under. -/
def entry (kind name tail : Text) : Text × Text := (name, collapse (kind ++ ' ' :: name ++ tail))

def parameter (param : Element) : Text :=
  let one := text (param.find "type")
  let default := text (param.find "defval")
  if default = [] then one else one ++ " = ".toList ++ default

/-- `parameters`: the parameter list, by type, with the names taken out. -/
def parameters (member : Element) : Text :=
  '(' :: join ", " ((member.findall "param").map parameter) ++ [')']

def rfind (c : Char) (s : Text) : Option Nat :=
  (s.reverse.findIdx? (· = c)).map fun i => s.length - 1 - i

/-- What stands behind `\s*=`. -/
def equals? (s : Text) : Option Text :=
  match s.dropWhile isSpace with
  | '=' :: t => some t
  | _ => none

theorem equals?_eq_some {s t : Text} : equals? s = some t ↔ s.dropWhile isSpace = '=' :: t := by
  rw [equals?]
  split
  · rename_i u heq
    rw [heq, Option.some.injEq, List.cons.injEq]
    exact (and_iff_right rfl).symm
  · rename_i hne
    exact ⟨nofun, fun h => absurd h (hne t)⟩

theorem equals?_suffix {s t : Text} (h : equals? s = some t) : '=' :: t <:+ s := by
  rw [← equals?_eq_some.mp h]
  exact List.dropWhile_suffix isSpace

/-- `\s*=\s*(default|delete)`, to be replaced by ` = ` and the word. -/
def definition : Pattern Char where
  at? s := (equals? s).bind fun t =>
    let t := t.dropWhile isSpace
    if "default".toList <+: t then
      some (" = default".toList, t.drop "default".toList.length)
    else if "delete".toList <+: t then
      some (" = delete".toList, t.drop "delete".toList.length)
    else none
  shorter {s r rest} h := by
    obtain ⟨t, ht, h⟩ := Option.bind_eq_some_iff.mp h
    have hlen := (equals?_suffix ht).length_le
    rw [List.length_cons] at hlen
    have hdrop : ∀ n, ((t.dropWhile isSpace).drop n).length < s.length := by
      intro n
      have h1 := (List.drop_suffix n (t.dropWhile isSpace)).length_le
      have h2 := (List.dropWhile_suffix (l := t) isSpace).length_le
      omega
    dsimp only at h
    split at h
    · cases h
      exact hdrop _
    · split at h
      · cases h
        exact hdrop _
      · cases h

def qualifiers (member : Element) : Text :=
  let args := text (member.find "argsstring")
  let after := match rfind ')' args with
    | none => []
    | some close => args.drop (close + 1)
  rstrip (definition.sub after)

def templateParam (param : Element) : Text :=
  let one := text (param.find "type")
  let declared := collapse ((param.findtext "declname").getD [])
  if declared ≠ [] ∧ ¬ declared <:+ one then one ++ ' ' :: declared else one

/-- `template`: the template parameter list, written after the name. -/
def template (member : Element) : Text :=
  match member.find "templateparamlist" with
  | none => []
  | some params => '<' :: join ", " (params.children.map templateParam) ++ ['>']

/-- `leading`: the keywords C++ writes in front of a declaration. -/
def leading (member : Element) : List Text :=
  let yes := fun name => member.get name = some "yes".toList
  let virt := (member.get "virt").getD []
  (if yes "static" then ["static".toList] else []) ++
    (if yes "explicit" then ["explicit".toList] else []) ++
    (if yes "constexpr" then ["constexpr".toList] else []) ++
    if virt = "virtual".toList ∨ virt = "pure-virtual".toList then
      [virt.map fun c => if c = '-' then ' ' else c]
    else []

def memberName (member : Element) : Text :=
  collapse (orElse ((member.findtext "qualifiedname").getD []) ((member.findtext "name").getD []))

def lead (member : Element) : Text :=
  join " " ((if member.get "kind" = some "friend".toList then "friend".toList
    else "func".toList) :: leading member)

/-- What a line says behind the name of a function: how it is called and what it
answers. -/
def signature (member : Element) : Text :=
  let kindType := text (member.find "type")
  template member ++ parameters member ++ qualifiers member ++
    if kindType = [] then [] else arrow ++ kindType

/-- `member_entry`: one member of a class, a struct or a namespace, as a line. -/
def memberEntry (member : Element) : Option (Text × Text) :=
  if ¬ isPublic (member.get "prot") then none
  else
    let kind := member.get "kind"
    let name := memberName member
    let kindType := text (member.find "type")
    if name = [] then none
    else if kind = some "function".toList ∨ kind = some "friend".toList then
      some (entry (lead member) name (signature member))
    else if kind = some "variable".toList then
      let lead := if member.get "static" = some "yes".toList then "var static" else "var"
      some (entry lead.toList name (arrow ++ kindType))
    else if kind = some "typedef".toList then
      some (entry "using".toList name (template member ++ arrow ++ kindType))
    else if kind = some "define".toList then
      some (entry "define".toList name [])
    else none

end ZuCpp.Surface
