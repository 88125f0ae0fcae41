import PhaseCheck.Name

set_option autoImplicit false

namespace PhaseCheck

inductive BaseType where
  | byte | char | double | float | int | long | short | boolean
deriving DecidableEq, Repr

namespace BaseType

def letter : BaseType → Char
  | .byte => 'B'
  | .char => 'C'
  | .double => 'D'
  | .float => 'F'
  | .int => 'I'
  | .long => 'J'
  | .short => 'S'
  | .boolean => 'Z'

def ofLetter? : Char → Option BaseType
  | 'B' => some .byte
  | 'C' => some .char
  | 'D' => some .double
  | 'F' => some .float
  | 'I' => some .int
  | 'J' => some .long
  | 'S' => some .short
  | 'Z' => some .boolean
  | _ => none

@[simp] theorem ofLetter?_letter (type : BaseType) : ofLetter? type.letter = some type := by
  cases type <;> rfl

end BaseType

inductive FieldType where
  | base (type : BaseType)
  | object (name : ClassName)
  | array (element : FieldType)
deriving DecidableEq

namespace FieldType

def maxDimensions : Nat := 255

def arrays : Nat → FieldType → FieldType
  | 0, type => type
  | n + 1, type => .array (arrays n type)

def dimensions : FieldType → Nat
  | .array element => element.dimensions + 1
  | _ => 0

def innermost : FieldType → FieldType
  | .array element => element.innermost
  | type => type

theorem arrays_dimensions_innermost (type : FieldType) : arrays type.dimensions type.innermost = type := by
  induction type with
  | base | object => rfl
  | array element ih => simp [arrays, dimensions, innermost, ih]

def isReference : FieldType → Bool
  | .base _ => false
  | _ => true

def chars : FieldType → List Char
  | .base type => [type.letter]
  | .object name => 'L' :: name.toInternal.toList ++ [';']
  | .array element => '[' :: element.chars

def render (type : FieldType) : String :=
  String.ofList type.chars

end FieldType

structure MethodType where
  parameters : List FieldType
  result : Option FieldType
deriving DecidableEq

namespace MethodType

def chars (type : MethodType) : List Char :=
  '(' :: type.parameters.flatMap FieldType.chars ++ ')' :: (type.result.map FieldType.chars).getD ['V']

def render (type : MethodType) : String :=
  String.ofList type.chars

end MethodType

end PhaseCheck
