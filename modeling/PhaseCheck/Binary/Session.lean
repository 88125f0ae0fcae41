import PhaseCheck.Binary.Cursor

set_option autoImplicit false

namespace PhaseCheck

structure Span where
  start : Nat
  stop : Nat
deriving DecidableEq

def Span.isWithin (span : Span) (bytes : List UInt8) : Bool :=
  span.start ≤ span.stop && span.stop ≤ bytes.length

def Cursor.cuts (cursor : Cursor) (count : Nat) : List Span :=
  if count ≤ cursor.remaining then [⟨cursor.position, cursor.position + count⟩] else []

-- The bytes of a line are looked at one by one, with one more behind a carriage return.
def Reader.lineCuts (cursor : Cursor) : List Span :=
  match _taken : u8 cursor with
  | .error _ _ => []
  | .ok byte next =>
    cursor.cuts 1 ++
      if byte = lineFeed then
        []
      else if byte = carriageReturn then
        next.cuts 1
      else
        lineCuts next
termination_by cursor.rest.length
decreasing_by exact u8_shorter _taken

inductive NumberFormat where
  | u8 | i8 | u16 | i16 | u32 | i32 | u64 | i64 | f32 | f64
deriving DecidableEq

namespace NumberFormat

def width : NumberFormat → Nat
  | .u8 | .i8 => 1
  | .u16 | .i16 => 2
  | .u32 | .i32 | .f32 => 4
  | .u64 | .i64 | .f64 => 8

abbrev Value : NumberFormat → Type
  | .u8 => UInt8
  | .i8 => Int8
  | .u16 => UInt16
  | .i16 => Int16
  | .u32 | .f32 => UInt32
  | .i32 => Int32
  | .u64 | .f64 => UInt64
  | .i64 => Int64

def read : (format : NumberFormat) → Reader format.Value
  | .u8 => Reader.u8
  | .i8 => Reader.i8
  | .u16 => Reader.u16
  | .i16 => Reader.i16
  | .u32 | .f32 => Reader.u32
  | .i32 => Reader.i32
  | .u64 | .f64 => Reader.u64
  | .i64 => Reader.i64

end NumberFormat

inductive Operation where
  | number (format : NumberFormat)
  | take (count : Nat)
  | skip (count : Nat)
  | text
  | line
  | putBack

namespace Operation

abbrev Answer : Operation → Type
  | .number format => format.Value
  | .take _ => List UInt8
  | .skip _ | .putBack => Unit
  | .text => String
  | .line => Option String

def read : (operation : Operation) → Reader operation.Answer
  | .number format => format.read
  | .take count => Reader.take count
  | .skip count => Reader.skip count
  | .text => Reader.text
  | .line => Reader.line
  | .putBack => Reader.putBack

def cuts (operation : Operation) (cursor : Cursor) : List Span :=
  match operation with
  | .number format => cursor.cuts format.width
  | .take count | .skip count => cursor.cuts count
  | .text =>
    cursor.cuts 2 ++
      match Reader.u16 cursor with
      | .ok length next => next.cuts length.toNat
      | .error _ _ => []
  | .line =>
    if cursor.isExhausted then
      []
    else
      Reader.lineCuts cursor ++
        match Reader.lineStop cursor.position cursor with
        | .ok stop _ => [⟨cursor.position, stop⟩]
        | .error _ _ => []
  | .putBack => []

end Operation

structure Session where
  bytes : List UInt8
  cursor : Cursor

namespace Session

def opened (bytes : List UInt8) : Session :=
  ⟨bytes, .ofBytes bytes⟩

def placed (bytes : List UInt8) (position : Nat) : Session :=
  ⟨bytes, .placed bytes position⟩

inductive Result (α : Type) where
  | answered (value : α) (next : Session)
  | refused (cause : FormatError) (next : Session)
  | broken (span : Span)

def Result.ofRead {α : Type} (bytes : List UInt8) : EStateM.Result FormatError Cursor α → Result α
  | .ok value cursor => .answered value ⟨bytes, cursor⟩
  | .error cause cursor => .refused cause ⟨bytes, cursor⟩

def perform (session : Session) (operation : Operation) : Result operation.Answer :=
  match (operation.cuts session.cursor).find? fun span => !span.isWithin session.bytes with
  | some span => .broken span
  | none => .ofRead session.bytes (operation.read session.cursor)

end Session

end PhaseCheck
