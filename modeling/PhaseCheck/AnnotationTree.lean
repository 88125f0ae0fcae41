import PhaseCheck.Attribute

set_option autoImplicit false

namespace PhaseCheck

inductive Retention where
  | visible | invisible
deriving DecidableEq, Repr

structure AnnotationOf (Value : Type) where
  type : ClassName
  elements : List (String × Value)
  retention : Retention

inductive ElementValue where
  | primitive (type : BaseType) (index : UInt16)
  | string (index : UInt16)
  | enum (type constant : UInt16)
  | class (index : UInt16)
  | nested (note : AnnotationOf ElementValue)
  | array (values : List ElementValue)

abbrev AnnotationTree := AnnotationOf ElementValue

namespace Retention

def attributeName : Retention → String
  | .visible => "RuntimeVisibleAnnotations"
  | .invisible => "RuntimeInvisibleAnnotations"

def ofAttributeName? (name : String) : Option Retention :=
  if name = attributeName .visible then some .visible
  else if name = attributeName .invisible then some .invisible
  else none

end Retention

namespace AnnotationOf

variable {Value : Type}

-- Annotation types are written as field types, but have to be classes.
def typeOf (descriptor : String) : Except FormatError ClassName := do
  match ← (FieldType.parse descriptor).mapError .badDescriptor with
  | .object name => return name
  | _ => throw (.badDescriptor ⟨descriptor, .notAClass⟩)

-- Reads an annotation, given how its values are read.
def read (pool : Pool) (retention : Retention) (value : Reader Value) : Reader (AnnotationOf Value) := do
  let type ← typeOf (← pool.text (← Reader.u16))
  let elements ← Reader.counted do
    let name ← pool.text (← Reader.u16)
    return (name, ← value)
  return ⟨type, elements, retention⟩

def element? (note : AnnotationOf Value) (name : String) : Option Value :=
  (note.elements.find? (·.1 = name)).map Prod.snd

end AnnotationOf

namespace ElementValue

open Reader

-- Arrays and annotations nest this deep below an annotation.
def maxDepth : Nat := 64

def read (pool : Pool) (retention : Retention) (levels : Nat) : Reader ElementValue := do
  let tag ← u8
  match Char.ofUInt8 tag with
  | 's' => return .string (← u16)
  | 'e' => return .enum (← u16) (← u16)
  | 'c' => return .class (← u16)
  | '@' =>
    match levels with
    | 0 => throw .nestedTooDeep
    | levels + 1 => return .nested (← AnnotationOf.read pool retention (read pool retention levels))
  | '[' =>
    match levels with
    | 0 => throw .nestedTooDeep
    | levels + 1 => return .array (← counted (read pool retention levels))
  | letter =>
    match BaseType.ofLetter? letter with
    | some type => return .primitive type (← u16)
    | none => throw (.badElementTag tag)

end ElementValue

namespace AnnotationTree

def read (pool : Pool) (retention : Retention) : Reader AnnotationTree :=
  AnnotationOf.read pool retention (ElementValue.read pool retention ElementValue.maxDepth)

def ofAttribute (pool : Pool) (item : Attribute) : Except FormatError (List AnnotationTree) :=
  match Retention.ofAttributeName? item.name with
  | some retention => item.decode (Reader.counted (read pool retention))
  | none => .ok []

def ofAttributes (pool : Pool) (attributes : List Attribute) : Except FormatError (List AnnotationTree) := do
  return (← attributes.mapM (ofAttribute pool)).flatten

def isPresent (pool : Pool) (attributes : List Attribute) (type : ClassName) : Except FormatError Bool := do
  return (← ofAttributes pool attributes).any (·.type = type)

end AnnotationTree

end PhaseCheck
