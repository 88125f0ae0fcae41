set_option autoImplicit false

namespace PhaseCheck.ModifiedUtf8

def continuation? (byte : UInt8) : Option Nat :=
  if byte.toNat / 64 = 2 then some (byte.toNat % 64) else none

-- The code unit at the front of some bytes, and the bytes after it. Longer spellings than needed count.
def unit? : List UInt8 → Option (Nat × List UInt8)
  | [] => none
  | first :: rest =>
    let lead := first.toNat
    if 0 < lead ∧ lead < 128 then
      some (lead, rest)
    else if lead / 32 = 6 then
      match rest with
      | second :: rest =>
        (continuation? second).map fun low => (lead % 32 * 64 + low, rest)
      | _ => none
    else if lead / 16 = 14 then
      match rest with
      | second :: third :: rest =>
        match continuation? second, continuation? third with
        | some middle, some low => some (lead % 16 * 4096 + middle * 64 + low, rest)
        | _, _ => none
      | _ => none
    else
      none

def isHighSurrogate (unit : Nat) : Bool := 0xD800 ≤ unit && unit ≤ 0xDBFF

def isLowSurrogate (unit : Nat) : Bool := 0xDC00 ≤ unit && unit ≤ 0xDFFF

def replacement : Char := '�'

def single (unit : Nat) : Char :=
  if isHighSurrogate unit || isLowSurrogate unit then replacement else Char.ofNat unit

def pair (high low : Nat) : Char :=
  Char.ofNat (0x10000 + (high - 0xD800) * 0x400 + (low - 0xDC00))

theorem unit?_shorter {bytes rest : List UInt8} {unit : Nat}
    (taken : unit? bytes = some (unit, rest)) : rest.length < bytes.length := by
  unfold unit? at taken
  split at taken
  · simp at taken
  · simp only at taken
    split at taken
    · simp_all
    · split at taken
      · split at taken
        · simp only [Option.map_eq_some_iff, Prod.mk.injEq] at taken
          obtain ⟨_, _, _, rfl⟩ := taken
          simp only [List.length_cons]
          omega
        · simp at taken
      · split at taken
        · split at taken
          · split at taken
            · simp only [Option.some.injEq, Prod.mk.injEq] at taken
              obtain ⟨_, rfl⟩ := taken
              simp only [List.length_cons]
              omega
            · simp at taken
          · simp at taken
        · simp at taken

def readChars (bytes : List UInt8) : Except (List UInt8) (List Char) :=
  if bytes = [] then
    .ok []
  else
    match first : unit? bytes with
    | none => .error bytes
    | some (unit, rest) =>
      have := unit?_shorter first
      if isHighSurrogate unit && !rest.isEmpty then
        -- The unit after a high surrogate decides whether the two belong together.
        match second : unit? rest with
        | none => .error rest
        | some (low, after) =>
          have := unit?_shorter second
          if isLowSurrogate low then
            (readChars after).map (pair unit low :: ·)
          else
            (readChars rest).map (replacement :: ·)
      else
        (readChars rest).map (single unit :: ·)
termination_by bytes.length

def decode (bytes : List UInt8) : Except Nat String :=
  match readChars bytes with
  | .ok chars => .ok (String.ofList chars)
  | .error stuck => .error (bytes.length - stuck.length)

end PhaseCheck.ModifiedUtf8
