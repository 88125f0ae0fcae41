set_option autoImplicit false

namespace PhaseCheck

structure Path where
  text : String
deriving DecidableEq, Repr

namespace Path

def split (separator : Char) : List Char → List (List Char)
  | [] => [[]]
  | c :: rest =>
    if c = separator then
      [] :: split separator rest
    else
      match split separator rest with
      | [] => [[c]]
      | first :: others => (c :: first) :: others

def pieces (path : Path) : List String :=
  (split '/' path.text.toList).map String.ofList

def isEmpty (path : Path) : Bool :=
  path.text.toList.isEmpty

def isAbsolute (path : Path) : Bool :=
  path.text.toList.head? = some '/'

-- A path seen from another one. An absolute path is the same from everywhere.
def join (base path : Path) : Path :=
  if path.isAbsolute || base.isEmpty then
    path
  else if base.text.toList.getLast? = some '/' then
    ⟨base.text ++ path.text⟩
  else
    ⟨base.text ++ "/" ++ path.text⟩

end Path

end PhaseCheck
