set_option autoImplicit false

namespace PhaseCheck

structure Arguments where
  input : String
  classList : Option String
  package : Option String
  marker : Option String
  checkCalls : Bool
  denyWarnings : Bool
deriving DecidableEq, Repr

inductive Request where
  | check (arguments : Arguments)
  | version
  | help
  | misuse
deriving DecidableEq, Repr

namespace Arguments

structure Draft where
  input : Option String
  classList : Option String
  package : Option String
  marker : Option String
  checkCalls : Bool
  denyWarnings : Bool
deriving DecidableEq, Repr

namespace Draft

def empty : Draft := ⟨none, none, none, none, false, false⟩

def setInput (draft : Draft) (value : String) : Option Draft :=
  if draft.input.isNone ∧ value ≠ "" then some { draft with input := some value } else none

-- Takes an option with a value. An option is given at most once, and the name of a file is not empty.
def setOption (draft : Draft) (name value : String) : Option Draft :=
  match name with
  | "class-list" =>
    if draft.classList.isNone ∧ value ≠ "" then some { draft with classList := some value } else none
  | "annotation-package" =>
    if draft.package.isNone then some { draft with package := some value } else none
  | "override-annotation" =>
    if draft.marker.isNone then some { draft with marker := some value } else none
  | _ => none

def setSwitch (draft : Draft) (name : String) : Option Draft :=
  match name with
  | "check-calls" => if draft.checkCalls then none else some { draft with checkCalls := true }
  | "deny-warnings" => if draft.denyWarnings then none else some { draft with denyWarnings := true }
  | _ => none

def finish (draft : Draft) : Request :=
  match draft.input with
  | none => .misuse
  | some input =>
    .check ⟨input, draft.classList, draft.package, draft.marker, draft.checkCalls, draft.denyWarnings⟩

end Draft

inductive Argument where
  -- Behind this mark, everything is positional.
  | mark
  | long (name : String) (attached : Option String)
  | short (letter : Char)
  -- Anything else; a dash alone is a value.
  | value (text : String)
deriving DecidableEq, Repr

def Argument.ofString (text : String) : Argument :=
  match text.toList with
  | ['-', '-'] => .mark
  | '-' :: '-' :: rest =>
    .long (String.ofList (rest.takeWhile (· ≠ '=')))
      (match rest.dropWhile (· ≠ '=') with
        | [] => none
        | _ :: attached => some (String.ofList attached))
  | '-' :: letter :: _ => .short letter
  | _ => .value text

def takesValue (name : String) : Bool :=
  name ∈ ["class-list", "annotation-package", "override-annotation"]

def readPositional : Draft → List String → Request
  | draft, [] => draft.finish
  | draft, value :: rest =>
    match draft.setInput value with
    | some draft => readPositional draft rest
    | none => .misuse

def read : Draft → Option String → List String → Request
  | draft, none, [] => draft.finish
  | _, some _, [] => .misuse
  | draft, some name, text :: rest =>
    match Argument.ofString text with
    | .value value =>
      match draft.setOption name value with
      | some draft => read draft none rest
      | none => .misuse
    | _ => .misuse
  | draft, none, text :: rest =>
    match Argument.ofString text with
    | .mark => readPositional draft rest
    | .short 'V' => .version
    | .short 'h' => .help
    | .short _ => .misuse
    | .value value =>
      match draft.setInput value with
      | some draft => read draft none rest
      | none => .misuse
    | .long "version" none => .version
    | .long "help" none => .help
    | .long name (some value) =>
      match draft.setOption name value with
      | some draft => read draft none rest
      | none => .misuse
    | .long name none =>
      if takesValue name then
        read draft (some name) rest
      else
        match draft.setSwitch name with
        | some draft => read draft none rest
        | none => .misuse

end Arguments

def Request.ofArguments (arguments : List String) : Request :=
  Arguments.read .empty none arguments

end PhaseCheck
