import PhaseCheck.Descriptor.Parser

set_option autoImplicit false

namespace PhaseCheck

namespace Quoted

def hex (n : Nat) : List Char :=
  Nat.toDigits 16 n

def isControl (c : Char) : Bool :=
  c.toNat < 0x20 || (0x7F ≤ c.toNat && c.toNat < 0xA0)

def escape : Char → List Char
  | '"' => ['\\', '"']
  | '\\' => ['\\', '\\']
  | '\n' => ['\\', 'n']
  | '\r' => ['\\', 'r']
  | '\t' => ['\\', 't']
  | '\x00' => ['\\', '0']
  | c => if isControl c then "\\u\x7b".toList ++ hex c.toNat ++ "\x7d".toList else [c]

def quote (text : String) : String :=
  String.ofList ('"' :: text.toList.flatMap escape ++ ['"'])

end Quoted

structure Version where
  minor : UInt16
  major : UInt16
deriving DecidableEq, Repr

inductive ConstantRole where
  | text | className | nameAndType | method
deriving DecidableEq, Repr

def ConstantRole.label : ConstantRole → String
  | .text => "Utf8"
  | .className => "Class"
  | .nameAndType => "NameAndType"
  | .method => "Methodref"

inductive FormatError where
  | unexpectedEnd (position requested : Nat)
  | nothingToPutBack (position : Nat)
  | badMagic (magic : UInt32)
  | unsupportedVersion (version : Version)
  | unknownTag (index : UInt16) (tag : UInt8)
  | badHandleKind (kind : UInt8)
  -- The index is zero, past the pool, or the second slot of a wide constant.
  | noConstant (index : UInt16)
  | wrongConstant (index : UInt16) (expected : ConstantRole)
  | poolOverflow (count : UInt16)
  | malformedText (position : Nat)
  | malformedName (cause : NameError)
  | badDescriptor (cause : DescriptorError)
  | missingSuperclass (name : ClassName)
  | trailingBytes (count : Nat)
  | duplicateAttribute (name : String)
  | badOpcode (offset : Nat) (opcode : UInt8)
  | badTarget (offset : Nat) (target : Int)
  | badSwitchBounds (offset : Nat) (low high : Int)
  | codeOverrun (offset : Nat)
  | badElementTag (tag : UInt8)
  | nestedTooDeep
deriving DecidableEq

namespace FormatError

open Quoted

def labelled (name : String) (fields : List (String × String)) : String :=
  name ++ " \x7b " ++ ", ".intercalate (fields.map fun (label, value) => label ++ ": " ++ value) ++ " \x7d"

def describe : FormatError → String
  | .unexpectedEnd position requested =>
    labelled "UnexpectedEof" [("position", toString position), ("requested", toString requested)]
  | .nothingToPutBack position => "InvalidPushBack(" ++ toString position ++ ")"
  | .badMagic magic => "BadMagic(" ++ toString magic.toNat ++ ")"
  | .unsupportedVersion version =>
    "UnsupportedVersion(" ++ labelled "Version"
      [("minor_version", toString version.minor.toNat), ("major_version", toString version.major.toNat)] ++ ")"
  | .unknownTag index tag =>
    labelled "UnknownConstantTag" [("index", toString index.toNat), ("tag", toString tag.toNat)]
  | .badHandleKind kind => "BadMethodHandleKind(" ++ toString kind.toNat ++ ")"
  | .noConstant index => "InvalidConstantIndex(" ++ toString index.toNat ++ ")"
  | .wrongConstant index expected =>
    labelled "UnexpectedConstant" [("index", toString index.toNat), ("expected", quote expected.label)]
  | .poolOverflow count => "ConstantPoolOverflow(" ++ toString count.toNat ++ ")"
  | .malformedText position => "MalformedUtf8(" ++ toString position ++ ")"
  | .malformedName cause => "MalformedName(" ++ quote cause.message ++ ")"
  | .badDescriptor cause =>
    labelled "BadDescriptor" [("descriptor", quote cause.descriptor), ("reason", quote cause.fault.message)]
  | .missingSuperclass name => "MissingSuperclass(" ++ quote name.text ++ ")"
  | .trailingBytes count => "TrailingBytes(" ++ toString count ++ ")"
  | .duplicateAttribute name => "DuplicateAttribute(" ++ quote name ++ ")"
  | .badOpcode offset opcode =>
    labelled "BadOpcode" [("offset", toString offset), ("opcode", toString opcode.toNat)]
  | .badTarget offset target =>
    labelled "BadBranchTarget" [("offset", toString offset), ("target", toString target)]
  | .badSwitchBounds offset low high =>
    labelled "BadSwitchBounds" [("offset", toString offset), ("low", toString low), ("high", toString high)]
  | .codeOverrun offset => "CodeOverrun(" ++ toString offset ++ ")"
  | .badElementTag tag => "BadElementValueTag(" ++ toString tag.toNat ++ ")"
  | .nestedTooDeep => "AnnotationNestingTooDeep"

end FormatError

end PhaseCheck
