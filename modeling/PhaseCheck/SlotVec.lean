set_option autoImplicit false

namespace PhaseCheck

-- An element is addressed by the first of the slots that it takes up, and the others address nothing.
structure SlotVec (α : Type) where
  entries : Array (UInt64 × α)
  next : UInt64

inductive Slot (α : Type) where
  | found (element : α)
  | misaligned
  | tooLarge
deriving DecidableEq, Repr

namespace Slot

variable {α : Type}

def toOption : Slot α → Option α
  | .found element => some element
  | _ => none

end Slot

namespace SlotVec

variable {α : Type}

def startingAt (offset : UInt64) : SlotVec α :=
  ⟨#[], offset⟩

def size (vec : SlotVec α) : Nat :=
  vec.entries.size

def isEmpty (vec : SlotVec α) : Bool :=
  vec.entries.isEmpty

-- The next offset is a machine word, so it starts over at zero when it gets too large.
def push (vec : SlotVec α) (width : UInt64) (element : α) : SlotVec α :=
  ⟨vec.entries.push (vec.next, element), vec.next + width⟩

def add (vec : SlotVec α) (width : UInt64) (element : α) : UInt64 × SlotVec α :=
  (vec.next, vec.push width element)

def toList (vec : SlotVec α) : List (UInt64 × α) :=
  vec.entries.toList

def search (entries : Array (UInt64 × α)) (offset : UInt64) (low high : Nat) (within : high ≤ entries.size) : Slot α :=
  if _left : low < high then
    let middle := low + (high - low) / 2
    have inside : middle < entries.size := by omega
    let (start, element) := entries[middle]
    if offset = start then
      .found element
    else if start < offset then
      search entries offset (middle + 1) high within
    else
      search entries offset low middle (by omega)
  else if low = entries.size then
    .tooLarge
  else
    .misaligned
termination_by high - low

def get (vec : SlotVec α) (offset : UInt64) : Slot α :=
  search vec.entries offset 0 vec.entries.size (Nat.le_refl _)

def describe (label : α → String) (vec : SlotVec α) : String :=
  "[" ++ ", ".intercalate (vec.toList.map fun (offset, element) =>
    "#" ++ toString offset ++ " = " ++ label element) ++ "]"

end SlotVec

end PhaseCheck
