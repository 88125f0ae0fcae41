import PhaseCheck.Descriptor.Basic

set_option autoImplicit false

namespace PhaseCheck

inductive DescriptorFault where
  | missingBase
  | invalidBase (c : Char)
  | tooManyDimensions
  | invalidElement
  | missingField
  | unclosedClass
  | badClassName (cause : NameError)
  | leftover (rest : String)
  | unbalanced
  | notAMethod
  | invalidParameter
  | missingResult
  | invalidResult
  | leftoverAfterResult
  | notAClass
deriving DecidableEq, Repr

def DescriptorFault.message : DescriptorFault → String
  | .missingBase => "missing base type character"
  | .invalidBase c => "invalid base type character '" ++ c.toString ++ "'"
  | .tooManyDimensions => "too many array dimensions"
  | .invalidElement => "invalid array element type"
  | .missingField => "missing field type"
  | .unclosedClass => "missing ';' after class name"
  | .badClassName cause => cause.message
  | .leftover rest => "unexpected leftover input '" ++ rest ++ "'"
  | .unbalanced => "expected exactly one '(' and one ')'"
  | .notAMethod => "expected '(' for method"
  | .invalidParameter => "invalid parameter type"
  | .missingResult => "missing return type"
  | .invalidResult => "invalid return type"
  | .leftoverAfterResult => "leftover input after return type"
  | .notAClass => "annotation type must be a class"

structure DescriptorError where
  descriptor : String
  fault : DescriptorFault
deriving DecidableEq, Repr

-- What was read, how many bytes of UTF-8 it took up, and the characters after it.
structure Taken (α : Type) where
  value : α
  used : Nat
  rest : List Char

abbrev DescriptorReader (α : Type) := List Char → Except DescriptorFault (Taken α)

def byteSize (chars : List Char) : Nat :=
  (String.ofList chars).utf8ByteSize

@[simp] theorem byteSize_nil : byteSize [] = 0 := rfl

@[simp] theorem byteSize_append (chars more : List Char) :
    byteSize (chars ++ more) = byteSize chars + byteSize more := by
  rw [byteSize, String.ofList_append, String.utf8ByteSize_append]
  rfl

@[simp] theorem byteSize_cons (c : Char) (chars : List Char) : byteSize (c :: chars) = c.utf8Size + byteSize chars := by
  rw [byteSize, String.ofList_cons, String.utf8ByteSize_append, String.utf8ByteSize_singleton]
  rfl

theorem byteSize_eq_zero_iff {chars : List Char} : byteSize chars = 0 ↔ chars = [] := by
  rw [byteSize, String.utf8ByteSize_eq_zero_iff, String.ofList_eq_empty_iff]

namespace DescriptorReader

variable {α : Type}

def front (read : DescriptorReader α) (text : String) : Except DescriptorError (α × Nat) :=
  match read text.toList with
  | .error fault => .error ⟨text, fault⟩
  | .ok taken => .ok (taken.value, taken.used)

def whole (read : DescriptorReader α) (text : String) : Except DescriptorError α :=
  match read text.toList with
  | .error fault => .error ⟨text, fault⟩
  | .ok taken =>
    if taken.used = text.utf8ByteSize then
      .ok taken.value
    else
      .error ⟨text, .leftover (String.ofList taken.rest)⟩

end DescriptorReader

namespace BaseType

def read : DescriptorReader BaseType
  | [] => .error .missingBase
  | c :: rest =>
    match ofLetter? c with
    | some type => .ok ⟨type, 1, rest⟩
    | none => .error (.invalidBase c)

def parse (text : String) : Except DescriptorError BaseType :=
  DescriptorReader.whole read text

def parseFront (text : String) : Except DescriptorError (BaseType × Nat) :=
  DescriptorReader.front read text

end BaseType

namespace FieldType

-- Reads a class name up to its semicolon. The letter before the name is counted here as well.
def readClass (source : List Char) : Except DescriptorFault (Taken FieldType) :=
  match source.dropWhile (· ≠ ';') with
  | [] => .error .unclosedClass
  | _ :: rest =>
    let inner := source.takeWhile (· ≠ ';')
    match ClassName.ofInternal (String.ofList inner) with
    | .ok name => .ok ⟨.object name, 1 + byteSize inner + 1, rest⟩
    | .error cause => .error (.badClassName cause)

-- Reads the type under the array dimensions; what stands there wrongly is named after the array.
def readElement (inArray : Bool) : DescriptorReader FieldType
  | [] => .error (if inArray then .invalidElement else .missingField)
  | 'L' :: rest => readClass rest
  | c :: rest =>
    match BaseType.ofLetter? c with
    | some type => .ok ⟨.base type, 1, rest⟩
    | none => .error (if inArray then .invalidElement else .invalidBase c)

def read (source : List Char) : Except DescriptorFault (Taken FieldType) :=
  let depth := (source.takeWhile (· = '[')).length
  if maxDimensions < depth then
    .error .tooManyDimensions
  else
    match readElement (0 < depth) (source.dropWhile (· = '[')) with
    | .ok ⟨element, used, rest⟩ => .ok ⟨arrays depth element, depth + used, rest⟩
    | .error fault => .error fault

theorem readElement_shorter {inArray : Bool} {source rest : List Char} {type : FieldType} {used : Nat}
    (taken : readElement inArray source = .ok ⟨type, used, rest⟩) : rest.length < source.length := by
  unfold readElement at taken
  split at taken
  · simp at taken
  · rename_i after
    unfold readClass at taken
    split at taken
    · simp at taken
    · rename_i dropped
      simp only at taken
      split at taken
      · have whole : (after.dropWhile (· ≠ ';')).length ≤ after.length :=
          (List.dropWhile_sublist _).length_le
        cases taken
        simp only [dropped, List.length_cons] at whole ⊢
        omega
      · simp at taken
  · split at taken
    · cases taken
      exact Nat.lt_succ_self _
    · simp at taken

theorem read_shorter {source rest : List Char} {type : FieldType} {used : Nat}
    (taken : read source = .ok ⟨type, used, rest⟩) : rest.length < source.length := by
  unfold read at taken
  simp only at taken
  split at taken
  · simp at taken
  · split at taken
    · rename_i inner
      cases taken
      have shorter := readElement_shorter inner
      have whole : (source.dropWhile (· = '[')).length ≤ source.length :=
        (List.dropWhile_sublist _).length_le
      omega
    · simp at taken

def parse (text : String) : Except DescriptorError FieldType :=
  DescriptorReader.whole read text

def parseFront (text : String) : Except DescriptorError (FieldType × Nat) :=
  DescriptorReader.front read text

def readAll (source : List Char) : Except DescriptorFault (List FieldType) :=
  if source = [] then
    .ok []
  else
    match taken : read source with
    | .error fault => .error fault
    | .ok ⟨type, _, rest⟩ =>
      have := read_shorter taken
      match readAll rest with
      | .error fault => .error fault
      | .ok types => .ok (type :: types)
termination_by source.length

end FieldType

namespace MethodType

def readResult (source : List Char) : Except DescriptorFault (Option FieldType) :=
  if source = ['V'] then
    .ok none
  else if source = [] then
    .error .missingResult
  else
    match FieldType.read source with
    | .error _ => .error .invalidResult
    | .ok taken =>
      if taken.used = byteSize source then .ok (some taken.value) else .error .leftoverAfterResult

-- Parentheses are counted over the whole text, so none can hide in a class name.
def read (source : List Char) : Except DescriptorFault (Taken MethodType) :=
  if source.count '(' ≠ 1 ∨ source.count ')' ≠ 1 then
    .error .unbalanced
  else
    match source with
    | '(' :: inner =>
      match FieldType.readAll (inner.takeWhile (· ≠ ')')) with
      | .error _ => .error .invalidParameter
      | .ok parameters =>
        match readResult ((inner.dropWhile (· ≠ ')')).drop 1) with
        | .error fault => .error fault
        | .ok result => .ok ⟨⟨parameters, result⟩, byteSize source, []⟩
    | _ => .error .notAMethod

def parse (text : String) : Except DescriptorError MethodType :=
  DescriptorReader.whole read text

def parseFront (text : String) : Except DescriptorError (MethodType × Nat) :=
  DescriptorReader.front read text

end MethodType

end PhaseCheck
