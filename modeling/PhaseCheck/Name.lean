set_option autoImplicit false

namespace PhaseCheck

inductive NameError where
  | illegalCharacter (text : String)
  | emptyMember
  | emptyClass
  | notDotted (text : String)
  | dotInInternal (text : String)
deriving DecidableEq, Repr

def NameError.message : NameError → String
  | .illegalCharacter text => "Unqualified name '" ++ text ++ "' contains an illegal character"
  | .emptyMember => "Unqualified name is empty"
  | .emptyClass => "Class name is empty"
  | .notDotted text => "Class name '" ++ text ++ "' is not in dotted form"
  | .dotInInternal text => "Class name '" ++ text ++ "' contains a '.' in internal form"

def MemberName.separators : List Char := ['.', ';', '[', '/']

structure MemberName where
  text : String
  nonempty : text.toList ≠ []
  unseparated : ∀ c ∈ text.toList, c ∉ MemberName.separators
deriving DecidableEq

namespace MemberName

-- A text that has a separator is reported for that, whether or not it could be empty.
def ofString (text : String) : Except NameError MemberName :=
  if separated : text.toList.any separators.contains then
    .error (.illegalCharacter text)
  else if empty : text.toList = [] then
    .error .emptyMember
  else
    .ok ⟨text, empty, fun c present bad => separated (List.any_eq_true.mpr ⟨c, present, List.elem_eq_true_of_mem bad⟩)⟩

theorem ofString_text (name : MemberName) : ofString name.text = .ok name := by
  have unseparated : ¬name.text.toList.any separators.contains := by
    simpa using name.unseparated
  rw [ofString, dif_neg unseparated, dif_neg name.nonempty]

-- Instance and class initializers have names that no source program can write.
def isInitializer (name : MemberName) : Bool :=
  name.text = "<init>" || name.text = "<clinit>"

end MemberName

structure ClassName where
  text : String
  nonempty : text.toList ≠ []
  dotted : '/' ∉ text.toList
deriving DecidableEq

namespace ClassName

def ofDotted (text : String) : Except NameError ClassName :=
  if empty : text.toList = [] then
    .error .emptyClass
  else if slashed : '/' ∈ text.toList then
    .error (.notDotted text)
  else
    .ok ⟨text, empty, slashed⟩

def swap (old new : Char) (text : String) : String :=
  String.ofList (text.toList.map fun c => if c = old then new else c)

-- A dot in internal form would look like a package separator once the name is dotted.
def ofInternal (text : String) : Except NameError ClassName :=
  if '.' ∈ text.toList then
    .error (.dotInInternal text)
  else
    ofDotted (swap '/' '.' text)

def toInternal (name : ClassName) : String :=
  swap '.' '/' name.text

-- Whether the dotted name starts with a package such as `java.`; the text is compared as it stands.
def isWithin (name : ClassName) (package : String) : Bool :=
  package.toList.isPrefixOf name.text.toList

def object : ClassName := ⟨"java.lang.Object", by decide, by decide⟩

def cloneable : ClassName := ⟨"java.lang.Cloneable", by decide, by decide⟩

def serializable : ClassName := ⟨"java.io.Serializable", by decide, by decide⟩

def overrideMarker : ClassName := ⟨"java.lang.Override", by decide, by decide⟩

end ClassName

end PhaseCheck
