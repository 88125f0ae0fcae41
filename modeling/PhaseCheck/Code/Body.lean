import PhaseCheck.Attribute
import PhaseCheck.Code.Scan

set_option autoImplicit false

namespace PhaseCheck

structure Handler where
  start : UInt16
  stop : UInt16
  target : UInt16
  -- Exceptions that are caught; none means all of them.
  catches : Option ClassName
deriving DecidableEq

structure LineRow where
  start : UInt16
  line : UInt16
deriving DecidableEq, Repr

structure Body where
  maxStack : UInt16
  maxLocals : UInt16
  bytecode : List UInt8
  handlers : List Handler
  lines : List LineRow
deriving DecidableEq

namespace Handler

def read (pool : Pool) : Reader Handler := do
  let start ← Reader.u16
  let stop ← Reader.u16
  let target ← Reader.u16
  let catches ← Reader.u16
  if catches = 0 then
    return ⟨start, stop, target, none⟩
  else
    return ⟨start, stop, target, some (← pool.className catches)⟩

end Handler

namespace LineRow

def attributeName : String := "LineNumberTable"

def read : Reader LineRow := do
  return ⟨← Reader.u16, ← Reader.u16⟩

def readTable : Reader (List LineRow) :=
  Reader.counted read

def ofAttributes (attributes : List Attribute) : Except FormatError (List LineRow) := do
  let tables ← (attributes.filter (·.name = attributeName)).mapM (Attribute.decode readTable)
  return tables.flatten

-- Keeps a row instead of the best one so far if it starts no earlier and not past the offset.
def closer (offset : Nat) (best : Option LineRow) (row : LineRow) : Option LineRow :=
  if row.start.toNat ≤ offset ∧ best.all (·.start ≤ row.start) then some row else best

end LineRow

namespace Body

def attributeName : String := "Code"

def read (pool : Pool) : Reader Body := do
  let maxStack ← Reader.u16
  let maxLocals ← Reader.u16
  let length ← Reader.u32
  let bytecode ← Reader.take length.toNat
  let handlers ← Reader.counted (Handler.read pool)
  let attributes ← Attribute.readAll pool
  let lines ← LineRow.ofAttributes attributes
  return ⟨maxStack, maxLocals, bytecode, handlers, lines⟩

def find (pool : Pool) (attributes : List Attribute) : Except FormatError (Option Body) :=
  Attribute.find attributeName (read pool) attributes

def lineAt (body : Body) (offset : Nat) : UInt16 :=
  ((body.lines.foldl (LineRow.closer offset) none).map LineRow.line).getD 0

def entries (body : Body) : List Nat :=
  0 :: body.handlers.map (·.target.toNat)

def blockStarts (body : Body) : Except FormatError (List Nat) :=
  PhaseCheck.blockStarts body.bytecode body.entries

end Body

end PhaseCheck
