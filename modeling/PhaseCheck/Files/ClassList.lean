import PhaseCheck.Report

set_option autoImplicit false

namespace PhaseCheck

namespace Blank

-- The characters with the Unicode property `White_Space`.
def ranges : List (Nat × Nat) :=
  [(0x0009, 0x000D), (0x0020, 0x0020), (0x0085, 0x0085), (0x00A0, 0x00A0), (0x1680, 0x1680), (0x2000, 0x200A),
    (0x2028, 0x2029), (0x202F, 0x202F), (0x205F, 0x205F), (0x3000, 0x3000)]

def isBlank (c : Char) : Bool :=
  ranges.any fun (first, last) => first ≤ c.toNat && c.toNat ≤ last

def trim (text : String) : String :=
  String.ofList ((text.toList.dropWhile isBlank).reverse.dropWhile isBlank).reverse

end Blank

namespace ClassList

def name? (line : String) : Except NameError (Option ClassName) :=
  let entry := Blank.trim line
  if entry.toList = [] ∨ entry.toList.head? = some '#' then
    .ok none
  else if '/' ∈ entry.toList then
    (ClassName.ofInternal entry).map some
  else
    (ClassName.ofDotted entry).map some

-- Reads names from the line of a number on. The path is only needed to report a line that is no text.
def readFrom (path : String) (number : Nat) (cursor : Cursor) : Except CheckError (List ClassName) :=
  match _taken : Reader.line cursor with
  | .error cause _ => .error (.malformedLine path number cause)
  | .ok none _ => .ok []
  | .ok (some line) next => do
    let found ← (name? line).mapError .malformedName
    let others ← readFrom path (number + 1) next
    return found.toList ++ others
termination_by cursor.rest.length
decreasing_by exact Reader.line_shorter _taken

def read (path : String) (content : List UInt8) : Except CheckError (List ClassName) :=
  readFrom path 1 (.ofBytes content)

end ClassList

end PhaseCheck
