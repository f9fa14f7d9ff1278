import ZuCpp.Surface.Overload
import ZuCpp.Lib.Nest

/-!
# `surface`: what is read out of the XML

`surface` goes over the pages of the index, and on each page over its compounds: a class
or a struct that may not be named is passed over with all that is written in it, and of the
rest every member is filed that may be named itself.

A page says of its type only how it may be named within the type around it.  So what is
read is what is public or protected **on its own page**, and a caller can name it exactly
when the types around that one are, too.  The two are the same exactly when no private type
has a public or protected one directly in it (`listed_iff_accessible_iff`).
-/

namespace ZuCpp.Surface

open Lib

/-! ### The loop over the pages -/

namespace Element

mutual

def iter (tag : String) : Element → List Element
  | mk name attrib text tail children =>
    let below := itersBelow tag children
    if name = tag.toList then mk name attrib text tail children :: below else below

/-- Of the children, one after another. -/
def itersBelow (tag : String) : List Element → List Element
  | [] => []
  | c :: cs => c.iter tag ++ itersBelow tag cs

end

end Element

def withoutEquals (s : Text) : Text := python.strip (if s.head? = some '=' then s.tail else s)

def enumLine (member : Element) : Text × Text :=
  entry "enum".toList (memberName member) (arrow ++ text (member.find "type"))

def valueLine (member value : Element) : Text × Text :=
  let one := collapse ((value.findtext "name").getD [])
  let init := withoutEquals (text (value.find "initializer"))
  entry "enum value".toList (memberName member ++ "::".toList ++ one) (arrow ++ init)

/-- `enum_entries`: an enum and every enumerator in it. -/
def enumEntries (member : Element) : List (Text × Text) :=
  if ¬ isPublic (member.get "prot") then []
  else
    enumLine member ::
      ((member.findall "enumvalue").filter fun value => isPublic (value.get "prot")).map
        (valueLine member)

def baseText (ref : Element) : Text :=
  orElse ((ref.get "prot").getD []) "public".toList ++ ' ' :: collapse ref.itertext

def compoundLine (kind : Text) (compound : Element) : Text × Text :=
  let name := collapse ((compound.findtext "compoundname").getD [])
  let bases := (compound.findall "basecompoundref").map baseText
  entry kind name (if bases = [] then [] else base ++ join ", " bases)

def isClass (kind : Option Text) : Bool :=
  kind = some "class".toList ∨ kind = some "struct".toList

/-- `compound_entry`: a class or a struct, with what it derives from. -/
def compoundEntry (compound : Element) : Option (Text × Text) :=
  if ¬ isPublic (compound.get "prot") then none
  else
    match compound.get "kind" with
    | none => none
    | some kind => if ¬ isClass (some kind) then none else some (compoundLine kind compound)

/-- One `memberdef` of a compound of that kind.  `takenBack` are the macros that the header
undefines again. -/
def memberEntries (takenBack : List Text) (kind : Option Text) (member : Element) :
    List (Text × Text) :=
  let define := member.get "kind" = some "define".toList
  if kind = some "file".toList ∧ ¬ define then []
  else if define ∧ ∃ name ∈ member.findtext "name", name ∈ takenBack then []
  else if member.get "kind" = some "enum".toList then enumEntries member
  else (memberEntry member).toList

def definitionEntries (takenBack : List Text) (definition : Element) : List (Text × Text) :=
  let kind := definition.get "kind"
  let members := (definition.iter "memberdef").flatMap (memberEntries takenBack kind)
  if kind = some "dir".toList then []
  else if isClass kind then
    match compoundEntry definition with
    | none => []
    | some one => one :: members
  else members

/-- What Doxygen wrote: the root of the index, and of a compound the root of its page where
there is one. -/
structure Xml where
  index : Element
  page : Text → Option Element

/-- Every `compounddef`, in the order of the index. -/
def Xml.definitions (xml : Xml) : List Element :=
  xml.index.children.flatMap fun compound =>
    match xml.page ((compound.get "refid").getD []) with
    | none => []
    | some page => page.iter "compounddef"

def Xml.found (xml : Xml) (takenBack : List Text) : List (Text × Text) :=
  xml.definitions.flatMap (definitionEntries takenBack)

/-! ### Nested types -/

/-- What a class can have besides types of its own: an enum, or a function, a friend, a
variable or an alias with a name. -/
structure IsMember (m : Element) : Prop where
  kind : ∃ k ∈ ["enum", "function", "friend", "variable", "typedef"],
    m.get "kind" = some k.toList
  named : m.get "kind" ≠ some "enum".toList → memberName m ≠ []

structure ClassDef where
  xml : Element
  kind : Text
  hkind : xml.get "kind" = some kind
  hclass : isClass (some kind) = true
  members : ∀ m ∈ xml.iter "memberdef", IsMember m

def memberLine (m : Element) : Text × Text :=
  if m.get "kind" = some "enum".toList then enumLine m
  else if m.get "kind" = some "variable".toList then
    entry (if m.get "static" = some "yes".toList then "var static" else "var").toList
      (memberName m) (arrow ++ text (m.find "type"))
  else if m.get "kind" = some "typedef".toList then
    entry "using".toList (memberName m) (template m ++ arrow ++ text (m.find "type"))
  else (memberName m, line m)

/-- A type, a member or an enumerator, its line, and how it may be named. -/
structure Entity where
  /-- what is said of it and of what it is written in, up to the type whose page it is on -/
  own : List (Option Text)
  /-- what is said of the types around that one, innermost first -/
  around : List (Option Text)
  line : Text × Text

namespace Entity

/-- All that its page says of it is public or protected. -/
def seen (x : Entity) : Bool := x.own.all isPublic

/-- It is public or protected, and so is everything around it. -/
def accessible (x : Entity) : Bool := (x.own ++ x.around).all isPublic

end Entity

/-- A member of a type of which `own` is said, and its enumerators. -/
def memberEntities (own around : List (Option Text)) (m : Element) : List Entity :=
  let enumerators := if m.get "kind" = some "enum".toList then m.findall "enumvalue" else []
  ⟨m.get "prot" :: own, around, memberLine m⟩ ::
    enumerators.map fun value =>
      ⟨value.get "prot" :: m.get "prot" :: own, around, valueLine m value⟩

/-- A type with others around it, its members and their enumerators. -/
def classEntities (around : List (Option Text)) (d : ClassDef) : List Entity :=
  let own := [d.xml.get "prot"]
  ⟨own, around, compoundLine d.kind d.xml⟩ ::
    (d.xml.iter "memberdef").flatMap (memberEntities own around)

def entities (classes : List (Nest ClassDef)) : List Entity :=
  (Nest.nodes classes).flatMap fun n =>
    classEntities (n.1.map fun d => d.xml.get "prot") n.2

/-- Doxygen's part: every class has a `compounddef` of its own, and so have the `others`. -/
def Documents (xml : Xml) (classes : List (Nest ClassDef)) (others : List Element) : Prop :=
  xml.definitions.Perm (others ++ (Nest.nodes classes).map fun n => n.2.xml)

/-- No private type has a public or protected one directly in it. -/
def NothingHidden (classes : List (Nest ClassDef)) : Prop :=
  ∀ n ∈ Nest.nodes classes, isPublic (n.2.xml.get "prot") = true →
    ∀ d ∈ n.1.head?, isPublic (d.xml.get "prot") = true

/-! ### What is read of a page -/

theorem memberEntry_eq {m : Element} (hm : IsMember m) (henum : m.get "kind" ≠ some "enum".toList) :
    (memberEntry m).toList = if isPublic (m.get "prot") then [memberLine m] else [] := by
  by_cases hprot : isPublic (m.get "prot") = true
  · have hname := hm.named henum
    rw [if_pos hprot]
    obtain ⟨k, hk, hkind⟩ := hm.kind
    fin_cases hk
    · exact absurd hkind henum
    · rw [memberEntry_function ⟨hprot, Or.inl hkind, hname⟩, memberLine, hkind]
      rfl
    · rw [memberEntry_function ⟨hprot, Or.inr hkind, hname⟩, memberLine, hkind]
      rfl
    -- a variable and an alias
    all_goals
      rw [memberEntry, if_neg (not_not.mpr hprot), memberLine, hkind]
      dsimp only
      rw [if_neg hname]
      rfl
  · rw [memberEntry, if_pos hprot, if_neg hprot]
    rfl

theorem memberEntries_eq {takenBack : List Text} {kind : Text} {m : Element}
    (hkind : isClass (some kind) = true) (hm : IsMember m) :
    memberEntries takenBack (some kind) m =
      if m.get "kind" = some "enum".toList then enumEntries m
      else if isPublic (m.get "prot") then [memberLine m] else [] := by
  have hfile : some kind ≠ some "file".toList := by
    intro h
    rw [h] at hkind
    exact absurd hkind (by decide)
  have hdefine : m.get "kind" ≠ some "define".toList := by
    obtain ⟨k, hk, hkind⟩ := hm.kind
    rw [hkind]
    fin_cases hk <;> decide
  rw [memberEntries, if_neg fun h => hfile h.1, if_neg fun h => hdefine h.1]
  split
  · rfl
  · rename_i henum
    exact memberEntry_eq hm henum

theorem seen_cons {p : Option Text} {own around : List (Option Text)} {l : Text × Text} :
    (Entity.mk (p :: own) around l).seen = (isPublic p && (Entity.mk own around l).seen) :=
  List.all_cons

/-- Nothing of a member is seen that may not be named, or is in a type that may not. -/
theorem seen_memberEntities_of_not {own around : List (Option Text)} {m : Element}
    (h : (m.get "prot" :: own).all isPublic = false) :
    (memberEntities own around m).filter Entity.seen = [] := by
  have hmember : ∀ l, ¬ (Entity.mk (m.get "prot" :: own) around l).seen = true := by
    intro l
    rw [Entity.seen, h]
    exact Bool.false_ne_true
  rw [memberEntities, List.filter_eq_nil_iff]
  intro x hx
  rcases List.mem_cons.mp hx with rfl | hx
  · exact hmember _
  · obtain ⟨value, -, rfl⟩ := List.mem_map.mp hx
    rw [seen_cons, Bool.and_eq_true]
    exact fun hvalue => hmember _ hvalue.2

theorem seen_memberEntities {takenBack : List Text} {kind : Text} {m : Element}
    {own around : List (Option Text)} (hkind : isClass (some kind) = true) (hm : IsMember m)
    (hown : own.all isPublic = true) :
    ((memberEntities own around m).filter Entity.seen).map Entity.line
      = memberEntries takenBack (some kind) m := by
  have hseen : ∀ p l, (Entity.mk (p :: own) around l).seen = isPublic p := by
    intro p l
    rw [seen_cons, Entity.seen, hown, Bool.and_true]
  by_cases hprot : isPublic (m.get "prot") = true
  · have hvalue : (Entity.seen ∘ fun value => Entity.mk (Element.get value "prot" ::
        m.get "prot" :: own) around (valueLine m value))
        = fun value => isPublic (Element.get value "prot") := by
      funext value
      rw [Function.comp_apply, seen_cons, hseen, hprot, Bool.and_true]
    have hhead : (Entity.mk (m.get "prot" :: own) around (memberLine m)).seen = true := by
      rw [hseen, hprot]
    rw [memberEntries_eq hkind hm, memberEntities, List.filter_cons_of_pos hhead,
      List.filter_map, hvalue, List.map_cons, List.map_map]
    split
    · rename_i henum
      rw [enumEntries, if_neg (not_not.mpr hprot), memberLine, if_pos henum]
      rfl
    · rfl
  · have hnone : (m.get "prot" :: own).all isPublic = false := by
      rw [List.all_cons, Bool.eq_false_of_not_eq_true hprot, Bool.false_and]
    rw [seen_memberEntities_of_not hnone, memberEntries_eq hkind hm, enumEntries, if_pos hprot,
      if_neg hprot, ite_self]
    rfl

/-- **What is read of a type is what of it is seen.** -/
theorem definitionEntries_eq (takenBack : List Text) (around : List (Option Text)) (d : ClassDef) :
    definitionEntries takenBack d.xml =
      ((classEntities around d).filter Entity.seen).map Entity.line := by
  have hdir : some d.kind ≠ some "dir".toList := by
    intro h
    have hclass := d.hclass
    rw [h] at hclass
    exact absurd hclass (by decide)
  have hown : [d.xml.get "prot"].all isPublic = isPublic (d.xml.get "prot") := by
    rw [List.all_cons, List.all_nil, Bool.and_true]
  have htype : (Entity.mk [d.xml.get "prot"] around (compoundLine d.kind d.xml)).seen
      = isPublic (d.xml.get "prot") := hown
  rw [definitionEntries, classEntities, d.hkind]
  rw [if_neg hdir, if_pos d.hclass, compoundEntry, d.hkind]
  by_cases hprot : isPublic (d.xml.get "prot") = true
  · rw [if_neg (not_not.mpr hprot), List.filter_cons_of_pos (htype.trans hprot),
      List.filter_flatMap, List.map_cons, List.map_flatMap]
    dsimp only
    rw [if_neg (not_not.mpr d.hclass)]
    refine congrArg (List.cons _) (List.flatMap_congr fun m hm => ?_)
    exact (seen_memberEntities d.hclass (d.members m hm) (hown.trans hprot)).symm
  · have hnone : ∀ p, (p :: [d.xml.get "prot"]).all isPublic = false := by
      intro p
      rw [List.all_cons, hown, Bool.eq_false_of_not_eq_true hprot, Bool.and_false]
    have hmembers : ((d.xml.iter "memberdef").flatMap
        (memberEntities [d.xml.get "prot"] around)).filter Entity.seen = [] := by
      rw [List.filter_flatMap, List.flatMap_eq_nil_iff]
      exact fun m _ => seen_memberEntities_of_not (hnone _)
    rw [if_pos hprot, List.filter_cons_of_neg (by rw [htype]; exact hprot), hmembers]
    rfl

/-- What is read out of the XML: what is seen of the classes, and of the others what is read
of them. -/
theorem found_perm {xml : Xml} {classes : List (Nest ClassDef)} {others : List Element}
    (h : Documents xml classes others) (takenBack : List Text) :
    (xml.found takenBack).Perm (others.flatMap (definitionEntries takenBack) ++
      ((entities classes).filter Entity.seen).map Entity.line) := by
  have hclasses : ((Nest.nodes classes).map fun n => n.2.xml).flatMap (definitionEntries takenBack)
      = ((entities classes).filter Entity.seen).map Entity.line := by
    rw [entities, List.filter_flatMap, List.map_flatMap, List.flatMap_map]
    exact List.flatMap_congr fun n _ => definitionEntries_eq takenBack _ n.2
  have hperm := h.flatMap_right (definitionEntries takenBack)
  rw [List.flatMap_append, hclasses] at hperm
  exact hperm

/-! ### What a caller can name -/

theorem accessible_eq (x : Entity) : x.accessible = (x.seen && x.around.all isPublic) :=
  List.all_append

/-- Nothing is seen of a type that may not be named within the type around it. -/
theorem isPublic_of_seen {around : List (Option Text)} {d : ClassDef} {x : Entity}
    (hx : x ∈ classEntities around d) (hseen : x.seen = true) :
    isPublic (d.xml.get "prot") = true ∧ x.around = around := by
  have hown : d.xml.get "prot" ∈ x.own ∧ x.around = around := by
    rw [classEntities] at hx
    rcases List.mem_cons.mp hx with rfl | hx
    · exact ⟨List.mem_cons_self, rfl⟩
    · obtain ⟨m, -, hx⟩ := List.mem_flatMap.mp hx
      rcases List.mem_cons.mp hx with rfl | hx
      · exact ⟨List.mem_cons_of_mem _ List.mem_cons_self, rfl⟩
      · obtain ⟨value, -, rfl⟩ := List.mem_map.mp hx
        exact ⟨List.mem_cons_of_mem _ (List.mem_cons_of_mem _ List.mem_cons_self), rfl⟩
  exact ⟨List.all_eq_true.mp hseen _ hown.1, hown.2⟩

/-- What is seen of a type can be named exactly when the types around it can. -/
theorem seen_accessible_iff {around : List (Option Text)} {d : ClassDef} :
    (∀ x ∈ classEntities around d, x.seen = true → x.accessible = true) ↔
      (isPublic (d.xml.get "prot") = true → ∀ p ∈ around, isPublic p = true) := by
  constructor
  · intro h hprot
    have htype : (Entity.mk [d.xml.get "prot"] around (compoundLine d.kind d.xml)).seen = true := by
      rw [seen_cons, hprot]
      rfl
    have hall := h _ List.mem_cons_self htype
    rw [accessible_eq, htype, Bool.true_and] at hall
    exact List.all_eq_true.mp hall
  · intro h x hx hseen
    obtain ⟨hprot, haround⟩ := isPublic_of_seen hx hseen
    rw [accessible_eq, hseen, Bool.true_and, haround]
    exact List.all_eq_true.mpr (h hprot)

/-- **All that is seen can be named exactly when nothing is hidden**, whatever the depth. -/
theorem seen_accessible_iff_nothingHidden {classes : List (Nest ClassDef)} :
    (∀ x ∈ entities classes, x.seen = true → x.accessible = true) ↔ NothingHidden classes := by
  have hchain := Nest.all_around_iff
    (p := fun d : ClassDef => isPublic (d.xml.get "prot") = true) classes
  rw [NothingHidden, ← hchain, entities]
  simp only [List.mem_flatMap, forall_exists_index, and_imp]
  constructor
  · intro h n hn hprot d hd
    refine seen_accessible_iff.mp (fun x hx => h x n hn hx) hprot _ ?_
    exact List.mem_map_of_mem hd
  · intro h x n hn hx
    refine seen_accessible_iff.mpr (fun hprot p hp => ?_) x hx
    obtain ⟨d, hd, rfl⟩ := List.mem_map.mp hp
    exact h n hn hprot d hd

/-! ### What is published -/

theorem mem_surface_iff {found formatters : List (Text × Text)} {now : List Text}
    (h : surface found formatters = .ok now) (l : Text) :
    l ∈ now ↔ ∃ p ∈ found ++ formatters, p.2 = l := by
  obtain ⟨-, rfl, -⟩ := surface_ok_iff.mp h
  rw [List.mem_map]
  simp only [(sortedPairs_perm _).mem_iff, List.mem_dedup]

/-- Every line of the classes is written once, and nowhere else. -/
structure Apart (lines : List Text) (elsewhere : List (Text × Text)) : Prop where
  once : lines.Nodup
  alone : ∀ p ∈ elsewhere, p.2 ∉ lines

theorem mem_now_iff_seen {xml : Xml} {classes : List (Nest ClassDef)} {others : List Element}
    {takenBack : List Text} {formatters : List (Text × Text)} {now : List Text}
    (h : Documents xml classes others) (hnow : surface (xml.found takenBack) formatters = .ok now)
    (hapart : Apart ((entities classes).map fun x => x.line.2)
      (others.flatMap (definitionEntries takenBack) ++ formatters)) {x : Entity}
    (hx : x ∈ entities classes) : x.line.2 ∈ now ↔ x.seen = true := by
  have hfound : ∀ p, p ∈ xml.found takenBack ↔ p ∈ others.flatMap (definitionEntries takenBack) ∨
      ∃ y ∈ entities classes, y.seen = true ∧ y.line = p := by
    intro p
    rw [(found_perm h takenBack).mem_iff, List.mem_append, List.mem_map]
    simp only [List.mem_filter, and_assoc]
  have halone : ∀ p ∈ others.flatMap (definitionEntries takenBack) ++ formatters,
      p.2 ≠ x.line.2 := by
    intro p hp heq
    exact hapart.alone p hp (heq ▸ List.mem_map_of_mem hx)
  rw [mem_surface_iff hnow]
  constructor
  · rintro ⟨p, hp, heq⟩
    rcases List.mem_append.mp hp with hp | hp
    · rcases (hfound p).mp hp with hp | ⟨y, hy, hseen, rfl⟩
      · exact absurd heq (halone p (List.mem_append_left _ hp))
      · rw [← List.inj_on_of_nodup_map hapart.once hy hx heq]
        exact hseen
    · exact absurd heq (halone p (List.mem_append_right _ hp))
  · intro hseen
    exact ⟨x.line, List.mem_append_left _ ((hfound _).mpr (Or.inr ⟨x, hx, hseen, rfl⟩)), rfl⟩

/-- What is seen is what can be named, however often, exactly when nothing is hidden. -/
theorem seen_perm_accessible_iff {classes : List (Nest ClassDef)} :
    (((entities classes).filter Entity.seen).map Entity.line).Perm
        (((entities classes).filter Entity.accessible).map Entity.line) ↔
      NothingHidden classes := by
  have hfilter : (entities classes).filter Entity.accessible
      = ((entities classes).filter Entity.seen).filter Entity.accessible := by
    rw [List.filter_filter]
    refine List.filter_congr fun x _ => ?_
    rw [accessible_eq]
    cases x.seen <;> simp
  rw [← seen_accessible_iff_nothingHidden]
  constructor
  · intro hperm x hx hseen
    -- one more is seen than can be named as soon as one cannot
    have hlength := hperm.length_eq
    rw [List.length_map, List.length_map, hfilter] at hlength
    exact List.length_filter_eq_length_iff.mp hlength.symm x (List.mem_filter.mpr ⟨hx, hseen⟩)
  · intro h
    have hall : ((entities classes).filter Entity.seen).filter Entity.accessible
        = (entities classes).filter Entity.seen := by
      rw [List.filter_eq_self]
      intro x hx
      exact h x (List.mem_filter.mp hx).1 (List.mem_filter.mp hx).2
    rw [hfilter, hall]

/-- **When what a caller cannot name is not published.**  Of the classes exactly what can be
named is read, no less and no more, when no private type has a public or protected one
directly in it, and only then.  And where every line is written once, a type, a member or an
enumerator is listed exactly when it and all types around it are public or protected, under
the same condition and only then. -/
theorem listed_iff_accessible_iff {xml : Xml} {classes : List (Nest ClassDef)}
    {others : List Element} (h : Documents xml classes others) (takenBack : List Text) :
    ((xml.found takenBack).Perm (others.flatMap (definitionEntries takenBack) ++
        ((entities classes).filter Entity.accessible).map Entity.line) ↔
      NothingHidden classes) ∧
    ∀ (formatters : List (Text × Text)) (now : List Text),
      surface (xml.found takenBack) formatters = .ok now →
      Apart ((entities classes).map fun x => x.line.2)
        (others.flatMap (definitionEntries takenBack) ++ formatters) →
      ((∀ x ∈ entities classes, x.line.2 ∈ now ↔ x.accessible = true) ↔
        NothingHidden classes) := by
  constructor
  · have hfound := found_perm h takenBack
    rw [← seen_perm_accessible_iff]
    constructor
    · intro hperm
      exact (List.perm_append_left_iff _).mp (hfound.symm.trans hperm)
    · intro hperm
      exact hfound.trans (hperm.append_left _)
  · intro formatters now hnow hapart
    rw [← seen_accessible_iff_nothingHidden]
    refine forall₂_congr fun x hx => ?_
    have hseen : x.accessible = true → x.seen = true := by
      rw [accessible_eq, Bool.and_eq_true]
      exact And.left
    rw [mem_now_iff_seen h hnow hapart hx]
    exact ⟨Iff.mp, fun himp => ⟨himp, hseen⟩⟩

/-! ### Where something is published that nobody can name -/

def compounddef (kind prot name : String) (members : List Element) : Element :=
  .mk "compounddef".toList [("kind".toList, kind.toList), ("prot".toList, prot.toList)] [] []
    (leaf "compoundname" name :: members)

def publicVariable (name : String) : Element :=
  .mk "memberdef".toList [("kind".toList, "variable".toList), ("prot".toList, "public".toList)] []
    [] [leaf "type" "int", leaf "qualifiedname" name]

theorem isMember_publicVariable {name : String} (h : memberName (publicVariable name) ≠ []) :
    IsMember (publicVariable name) :=
  ⟨⟨"variable", by decide, rfl⟩, fun _ => h⟩

def xmlOf (compounds : List (String × Element)) : Xml where
  index := .mk "doxygenindex".toList [] [] [] <| compounds.map fun c =>
    .mk "compound".toList [("refid".toList, c.1.toList)] [] [] []
  page refid := (compounds.find? fun c => c.1.toList = refid).map fun c =>
    .mk "doxygen".toList [] [] [] [c.2]

/-- `class Connection` with a private `struct Watch`, and in that a public `struct Slot`. -/
def connection : ClassDef where
  xml := compounddef "class" "public" "zu::Connection" []
  kind := "class".toList
  hkind := rfl
  hclass := by decide
  members := nofun

def watch : ClassDef where
  xml := compounddef "struct" "private" "zu::Connection::Watch"
    [publicVariable "zu::Connection::Watch::fd"]
  kind := "struct".toList
  hkind := rfl
  hclass := by decide
  members m hm := by
    obtain rfl : m = publicVariable "zu::Connection::Watch::fd" := List.mem_singleton.mp hm
    exact isMember_publicVariable (by decide)

def slot : ClassDef where
  xml := compounddef "struct" "public" "zu::Connection::Watch::Slot" []
  kind := "struct".toList
  hkind := rfl
  hclass := by decide
  members := nofun

def withSlot : List (Nest ClassDef) := [.node connection [.node watch [.node slot []]]]

def withoutSlot : List (Nest ClassDef) := [.node connection [.node watch []]]

def withSlotXml : Xml :=
  xmlOf [("connection", connection.xml), ("watch", watch.xml), ("slot", slot.xml)]

def withoutSlotXml : Xml := xmlOf [("connection", connection.xml), ("watch", watch.xml)]

theorem documents_withSlot : Documents withSlotXml withSlot [] := List.Perm.of_eq rfl

theorem documents_withoutSlot : Documents withoutSlotXml withoutSlot [] := List.Perm.of_eq rfl

/-- **A public struct in a private one is published**, though nobody can name it. -/
theorem hidden_type_listed : Documents withSlotXml withSlot [] ∧
    surface (withSlotXml.found []) [] =
      .ok ["class zu::Connection".toList, "struct zu::Connection::Watch::Slot".toList] ∧
    ∃ x ∈ entities withSlot, x.line.2 = "struct zu::Connection::Watch::Slot".toList ∧
      x.accessible = false := by
  have hslot : ([watch, connection], slot) ∈ Nest.nodes withSlot :=
    List.mem_cons_of_mem _ (List.mem_cons_of_mem _ List.mem_cons_self)
  refine ⟨documents_withSlot, by decide, _, List.mem_flatMap.mpr ⟨_, hslot, List.mem_cons_self⟩,
    by decide, by decide⟩

theorem listed_withoutSlot :
    (withoutSlotXml.found []).Perm
        (((entities withoutSlot).filter Entity.accessible).map Entity.line) ∧
      ∀ x ∈ entities withoutSlot,
        x.line.2 ∈ ["class zu::Connection".toList] ↔ x.accessible = true := by
  have hhidden : NothingHidden withoutSlot := by
    unfold NothingHidden
    decide
  have hapart : Apart ((entities withoutSlot).map fun x => x.line.2) [] :=
    ⟨by decide, nofun⟩
  obtain ⟨hread, hlisted⟩ := listed_iff_accessible_iff documents_withoutSlot []
  exact ⟨hread.mpr hhidden, (hlisted [] _ (by decide) hapart).mpr hhidden⟩

end ZuCpp.Surface
