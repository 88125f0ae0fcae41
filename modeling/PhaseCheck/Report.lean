import PhaseCheck.Member
import PhaseCheck.Settings

set_option autoImplicit false

namespace PhaseCheck

inductive CheckError where
  | badClass (name : ClassName) (cause : FormatError)
  | missingClass (name : ClassName)
  -- The class file under one name declares another.
  | nameMismatch (requested found : ClassName)
  | cyclicHierarchy (name : ClassName)
  | malformedName (cause : NameError)
  | malformedLine (path : String) (line : Nat) (cause : FormatError)
  | unreadable
deriving DecidableEq

namespace CheckError

def lineMessage (path : String) (line : Nat) (cause : FormatError) : String :=
  path ++ ":" ++ toString line ++ ": " ++ cause.describe

def describe : CheckError → String
  | .badClass name cause => "ClassFormat(" ++ name.text ++ ", " ++ cause.describe ++ ")"
  | .missingClass name => "MissingClass(" ++ name.text ++ ")"
  | .nameMismatch requested found =>
    FormatError.labelled "ClassNameMismatch" [("requested", requested.text), ("found", found.text)]
  | .cyclicHierarchy name => "CyclicHierarchy(" ++ name.text ++ ")"
  | .malformedName cause => "MalformedName(" ++ Quoted.quote cause.message ++ ")"
  | .malformedLine path line cause => "MalformedName(" ++ Quoted.quote (lineMessage path line cause) ++ ")"
  | .unreadable => "IoError"

end CheckError

inductive Warning where
  | noPhase (method : MethodKey)
  | severalPhases (method : MethodKey) (phases : List Phase)
  | callMismatch (caller : MethodKey) (phase : Phase) (callee : MethodKey) (calleePhase : Phase)
  | overrideMismatch (method : MethodKey) (phase : Phase) (overridden : MethodKey) (overriddenPhase : Phase)
  | nothingOverridden (method : MethodKey)
deriving DecidableEq

namespace Warning

def sided (method : MethodKey) (phase : Phase) : String :=
  method.text ++ " (" ++ phase.text ++ ")"

def message : Warning → String
  | .noPhase method => "no phase declared for " ++ method.text
  | .severalPhases method phases =>
    "multiple phases declared on " ++ method.text ++ ": " ++ ", ".intercalate (phases.map Phase.text)
  | .callMismatch caller phase callee calleePhase =>
    "mismatched phase between caller " ++ sided caller phase ++ " and callee " ++ sided callee calleePhase
  | .overrideMismatch method phase overridden overriddenPhase =>
    "mismatched phase between method " ++ sided method phase ++ " and overridden method "
      ++ sided overridden overriddenPhase
  | .nothingOverridden method =>
    method.text ++ " is marked as overriding, but no superclass declares it"

end Warning

inductive Event where
  | loading (name : ClassName)
  | decoded (name : ClassName) (fields methods : Nat)
  | absent (name : ClassName)
  | verifying (methods : Nat) (name : ClassName)
  | overrides (method overridden : MethodKey)
  | outsideCall (caller : MethodKey) (owner : ClassName)
  | unresolvedCall (caller : MethodKey) (owner : ClassName) (name : MemberName)
  | warned (warning : Warning)
deriving DecidableEq

namespace Event

def level : Event → String
  | .decoded .. => "TRACE"
  | .warned _ => "WARN"
  | _ => "DEBUG"

def message : Event → String
  | .loading name => "Loading class '" ++ name.text ++ "'"
  | .decoded name fields methods =>
    "Decoded '" ++ name.text ++ "' (" ++ toString fields ++ " fields, " ++ toString methods ++ " methods)"
  | .absent name => "Class '" ++ name.text ++ "' is not in the artifact"
  | .verifying methods name => "Verifying " ++ toString methods ++ " methods of '" ++ name.text ++ "'"
  | .overrides method overridden => method.text ++ " overrides " ++ overridden.text
  | .outsideCall caller owner =>
    "Skipping call from " ++ caller.text ++ " to outside class '" ++ owner.text ++ "'"
  | .unresolvedCall caller owner name =>
    "Could not resolve call from " ++ caller.text ++ " to " ++ owner.text ++ "." ++ name.text
  | .warned warning => warning.message

end Event

end PhaseCheck
