import PhaseCheck.Code.Instruction
import PhaseCheck.Unvisited

set_option autoImplicit false

namespace PhaseCheck

def insertAscending (offset : Nat) : List Nat → List Nat
  | [] => [offset]
  | first :: rest =>
    if offset < first then offset :: first :: rest
    else if offset = first then first :: rest
    else first :: insertAscending offset rest

structure Scan where
  starts : List Nat
  pending : List Nat
  walked : List Nat

namespace Scan

variable {σ : Type}

def enter (scan : Scan) (offset : Nat) : Scan :=
  if offset ∈ scan.starts then
    scan
  else
    { scan with starts := insertAscending offset scan.starts, pending := offset :: scan.pending }

def enterAll (scan : Scan) (offsets : List Nat) : Scan :=
  offsets.foldl enter scan

@[simp] theorem enter_walked (scan : Scan) (offset : Nat) : (scan.enter offset).walked = scan.walked := by
  unfold enter
  split <;> rfl

@[simp] theorem enterAll_walked (scan : Scan) (offsets : List Nat) :
    (scan.enterAll offsets).walked = scan.walked := by
  induction offsets generalizing scan with
  | nil => rfl
  | cons offset rest ih => exact (ih (scan.enter offset)).trans (enter_walked scan offset)

def ofEntries (entries : List Nat) : Scan :=
  enterAll ⟨[], [], []⟩ entries

def pass (scan : Scan) (offset : Nat) (targets : List Nat) : Scan :=
  enterAll { scan with walked := offset :: scan.walked } targets

/-- Walks on from `current`, or from the next block start if there is none. -/
def walk (bytecode : List UInt8) (visit : Instruction → EStateM FormatError σ Unit) (scan : Scan) :
    Option Nat → EStateM FormatError σ Scan
  | none =>
    match _pending : scan.pending with
    | [] => return scan
    | start :: rest => walk bytecode visit { scan with pending := rest } (some start)
  | some offset =>
    if _seen : scan.walked.contains offset then
      walk bytecode visit scan none
    else
      match _decoded : Instruction.decode bytecode offset with
      | .error cause => throw cause
      | .ok instruction => do
        visit instruction
        walk bytecode visit (scan.pass offset instruction.targets)
          (if instruction.fallsThrough then some instruction.next else none)
termination_by current =>
  (unvisited (List.range bytecode.length) scan.walked, 2 * scan.pending.length + current.toList.length)
decreasing_by
  · simp only [_pending, List.length_cons]
    exact Prod.Lex.right _ (by simp; omega)
  · exact Prod.Lex.right _ (by simp)
  · apply Prod.Lex.left
    simp only [pass, enterAll_walked]
    exact unvisited_cons_lt (List.mem_range.mpr (Instruction.lt_length_of_decode _decoded)) (by simpa using _seen)

def run (bytecode : List UInt8) (entries : List Nat) (visit : Instruction → EStateM FormatError σ Unit) :
    EStateM FormatError σ (List Nat) := do
  let scan ← walk bytecode visit (ofEntries entries) none
  return scan.starts

end Scan

def blockStarts (bytecode : List UInt8) (entries : List Nat) : Except FormatError (List Nat) :=
  match Scan.run bytecode entries (fun _ => pure ()) () with
  | .ok starts _ => .ok starts
  | .error cause _ => .error cause

end PhaseCheck
