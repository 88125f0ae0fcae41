import PhaseCheck.Binary.Error
import PhaseCheck.Text.ModifiedUtf8

set_option autoImplicit false

namespace PhaseCheck

/-- A place in some bytes: the bytes still to come and how many came before them. -/
structure Cursor where
  position : Nat
  rest : List UInt8
  last : Option UInt8

namespace Cursor

def ofBytes (bytes : List UInt8) : Cursor :=
  ⟨0, bytes, none⟩

def placed (bytes : List UInt8) (position : Nat) : Cursor :=
  ⟨position, bytes.drop position, none⟩

def remaining (cursor : Cursor) : Nat :=
  cursor.rest.length

def isExhausted (cursor : Cursor) : Bool :=
  cursor.rest.isEmpty

end Cursor

abbrev Reader := EStateM FormatError Cursor

def bigEndian (bytes : List UInt8) : Nat :=
  bytes.foldl (fun value byte => value * 256 + byte.toNat) 0

namespace Reader

variable {α : Type}

instance : MonadLift (Except FormatError) Reader where
  monadLift outcome cursor :=
    match outcome with
    | .ok value => .ok value cursor
    | .error cause => .error cause cursor

-- The next `count` bytes. If there are fewer, none of them is used.
def take (count : Nat) : Reader (List UInt8) := fun cursor =>
  let taken := cursor.rest.take count
  if taken.length = count then
    .ok taken ⟨cursor.position + count, cursor.rest.drop count, none⟩
  else
    .error (.unexpectedEnd cursor.position count) { cursor with last := none }

def skip (count : Nat) : Reader Unit := do
  let _ ← take count

def u8 : Reader UInt8 := fun cursor =>
  match cursor.rest with
  | byte :: rest => .ok byte ⟨cursor.position + 1, rest, some byte⟩
  | [] => .error (.unexpectedEnd cursor.position 1) { cursor with last := none }

def putBack : Reader Unit := fun cursor =>
  match cursor.last with
  | some byte => .ok () ⟨cursor.position - 1, byte :: cursor.rest, none⟩
  | none => .error (.nothingToPutBack cursor.position) cursor

def i8 : Reader Int8 := do
  return (← u8).toInt8

def u16 : Reader UInt16 := do
  return (bigEndian (← take 2)).toUInt16

def i16 : Reader Int16 := do
  return (← u16).toInt16

def u32 : Reader UInt32 := do
  return (bigEndian (← take 4)).toUInt32

def i32 : Reader Int32 := do
  return (← u32).toInt32

def u64 : Reader UInt64 := do
  return (bigEndian (← take 8)).toUInt64

def i64 : Reader Int64 := do
  return (← u64).toInt64

def decodeText (bytes : List UInt8) : Except FormatError String :=
  (ModifiedUtf8.decode bytes).mapError .malformedText

def text : Reader String := do
  let length ← u16
  let bytes ← take length.toNat
  decodeText bytes

def lineFeed : UInt8 := 10

def carriageReturn : UInt8 := 13

theorem u8_shorter {cursor next : Cursor} {byte : UInt8} (taken : u8 cursor = .ok byte next) :
    next.rest.length < cursor.rest.length := by
  unfold u8 at taken
  split at taken
  next rest split =>
    cases taken
    simp [split]
  next => cases taken

-- Uses up a line feed, if that is the next byte. Finding out takes a byte, which is put back otherwise.
def skipLineFeed : Reader Unit := fun cursor =>
  if cursor.isExhausted then
    .ok () cursor
  else
    match u8 cursor with
    | .error cause next => .error cause next
    | .ok byte next => if byte = lineFeed then .ok () next else putBack next

theorem skipLineFeed_le {cursor next : Cursor} (ran : skipLineFeed cursor = .ok () next) :
    next.rest.length ≤ cursor.rest.length := by
  obtain ⟨position, _ | ⟨byte, rest⟩, last⟩ := cursor
  · cases ran
    exact Nat.le_refl _
  · by_cases feed : byte = lineFeed
    · simp only [skipLineFeed, u8, Cursor.isExhausted, feed] at ran
      cases ran
      exact Nat.le_succ _
    · simp only [skipLineFeed, u8, Cursor.isExhausted, feed] at ran
      cases ran
      exact Nat.le_refl _

-- Uses up what is left of a line and its terminator, and gives the position behind the text of the line. As far as
-- the line has been read, that is `stop`.
def lineStop (stop : Nat) (cursor : Cursor) : EStateM.Result FormatError Cursor Nat :=
  if cursor.isExhausted then
    .ok stop cursor
  else
    match _taken : u8 cursor with
    | .error cause next => .error cause next
    | .ok byte next =>
      if byte = lineFeed then
        .ok stop next
      else if byte = carriageReturn then
        match skipLineFeed next with
        | .error cause next => .error cause next
        | .ok () next => .ok stop next
      else
        lineStop next.position next
termination_by cursor.rest.length
decreasing_by exact u8_shorter _taken

theorem lineStop_shorter {stop final : Nat} {cursor next : Cursor} (ran : lineStop stop cursor = .ok final next) :
    (cursor.isExhausted = true ∧ next = cursor) ∨ next.rest.length < cursor.rest.length := by
  fun_induction lineStop stop cursor with
  | case1 stop cursor empty =>
    cases ran
    exact .inl ⟨empty, rfl⟩
  | case2 => cases ran
  | case3 stop cursor left middle taken =>
    cases ran
    exact .inr (u8_shorter taken)
  | case4 => cases ran
  | case5 stop cursor left middle skipped skips taken =>
    cases ran
    exact .inr (Nat.lt_of_le_of_lt (skipLineFeed_le skips) (u8_shorter taken))
  | case6 stop cursor left byte middle taken _ _ ih =>
    right
    rcases ih ran with ⟨_, rfl⟩ | shorter
    · exact u8_shorter taken
    · exact Nat.lt_trans shorter (u8_shorter taken)

-- The next line without its terminator, or nothing at the end of the input. The terminator is used up also when the
-- line does not decode.
def line : Reader (Option String) := fun cursor =>
  if cursor.isExhausted then
    .ok none cursor
  else
    match lineStop cursor.position cursor with
    | .error cause next => .error cause next
    | .ok stop next =>
      match decodeText (cursor.rest.take (stop - cursor.position)) with
      | .ok content => .ok (some content) { next with last := none }
      | .error cause => .error cause { next with last := none }

theorem line_shorter {cursor next : Cursor} {content : String}
    (taken : line cursor = .ok (some content) next) : next.rest.length < cursor.rest.length := by
  unfold line at taken
  split at taken
  next => cases taken
  next left =>
    split at taken
    next => cases taken
    next stop final stopped =>
      split at taken
      next =>
        cases taken
        exact (lineStop_shorter stopped).resolve_left fun none => left none.1
      next => cases taken

def times (read : Reader α) : Nat → Reader (List α)
  | 0 => return []
  | count + 1 => do
    let first ← read
    let others ← times read count
    return first :: others

def counted (read : Reader α) : Reader (List α) := do
  let count ← u16
  times read count.toNat

def finish : Reader Unit := fun cursor =>
  if cursor.isExhausted then
    .ok () cursor
  else
    .error (.trailingBytes cursor.remaining) cursor

def whole (read : Reader α) (bytes : List UInt8) : Except FormatError α :=
  match (do let value ← read; finish; return value : Reader α) (.ofBytes bytes) with
  | .ok value _ => .ok value
  | .error cause _ => .error cause

end Reader

namespace Version

def supported : Version := ⟨0, 52⟩

def read : Reader Version := do
  let minor ← Reader.u16
  let major ← Reader.u16
  let version : Version := ⟨minor, major⟩
  if version = supported then
    return version
  else
    throw (.unsupportedVersion version)

end Version

end PhaseCheck
