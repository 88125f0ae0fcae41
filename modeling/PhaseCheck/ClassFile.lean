import PhaseCheck.AnnotationTree
import PhaseCheck.Member

set_option autoImplicit false

namespace PhaseCheck

structure ClassFile where
  version : Version
  pool : Pool
  access : Access .type
  name : ClassName
  -- Only `java.lang.Object` has no superclass.
  superclass : Option ClassName
  interfaces : List ClassName
  fields : List Field
  methods : List Method
  attributes : List Attribute

namespace ClassFile

def magic : UInt32 := 0xCAFEBABE

def readMagic : Reader Unit := do
  let found ← Reader.u32
  if found ≠ magic then
    throw (.badMagic found)

def readSuperclass (pool : Pool) (name : ClassName) : Reader (Option ClassName) := do
  let index ← Reader.u16
  if index ≠ 0 then
    return some (← pool.className index)
  else if name = .object then
    return none
  else
    throw (.missingSuperclass name)

def read : Reader ClassFile := do
  readMagic
  let version ← Version.read
  let pool ← Pool.read
  let access ← Reader.u16
  let name ← pool.className (← Reader.u16)
  let superclass ← readSuperclass pool name
  let interfaces ← Reader.counted do
    pool.className (← Reader.u16)
  let fields ← Reader.counted (Field.read pool name)
  let methods ← Reader.counted (Method.read pool name)
  let attributes ← Attribute.readAll pool
  return ⟨version, pool, .ofBits .type access, name, superclass, interfaces, fields, methods, attributes⟩

def decode (bytes : List UInt8) : Except FormatError ClassFile :=
  read.whole bytes

def supertypes (file : ClassFile) : List ClassName :=
  file.superclass.toList ++ file.interfaces

end ClassFile

end PhaseCheck
