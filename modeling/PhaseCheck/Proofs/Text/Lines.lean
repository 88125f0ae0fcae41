import PhaseCheck.Binary.Cursor

set_option autoImplicit false

namespace PhaseCheck

inductive LineEnd where
  | lineFeed
  | carriageReturn
  | both
deriving DecidableEq

def LineEnd.bytes : LineEnd → List UInt8
  | .lineFeed => [Reader.lineFeed]
  | .carriageReturn => [Reader.carriageReturn]
  | .both => [Reader.carriageReturn, Reader.lineFeed]

structure Line where
  content : List UInt8
  terminator : List UInt8

def Line.length (line : Line) : Nat :=
  line.content.length + line.terminator.length

structure Unbroken (bytes : List UInt8) : Prop where
  noFeed : Reader.lineFeed ∉ bytes
  noReturn : Reader.carriageReturn ∉ bytes

theorem Unbroken.cons {byte : UInt8} {bytes : List UInt8} (noFeed : byte ≠ Reader.lineFeed)
    (noReturn : byte ≠ Reader.carriageReturn) (others : Unbroken bytes) : Unbroken (byte :: bytes) where
  noFeed := List.not_mem_cons_of_ne_of_not_mem noFeed.symm others.noFeed
  noReturn := List.not_mem_cons_of_ne_of_not_mem noReturn.symm others.noReturn

theorem Unbroken.head_ne_lineFeed {bytes : List UInt8} (unbroken : Unbroken bytes) (nonempty : bytes ≠ [])
    (rest : List UInt8) : (bytes ++ rest).head? ≠ some Reader.lineFeed := by
  obtain ⟨byte, others, rfl⟩ := List.exists_cons_of_ne_nil nonempty
  intro first
  exact unbroken.noFeed (Option.some.inj first ▸ List.mem_cons_self ..)

/-- The first line of some bytes, and the bytes after it. Without a terminator a line goes up to the end and is not
empty. A carriage return is no terminator of its own in front of a line feed. -/
inductive FirstLine : List UInt8 → Line → List UInt8 → Prop where
  | unterminated {content : List UInt8} (unbroken : Unbroken content) (nonempty : content ≠ []) :
      FirstLine content ⟨content, []⟩ []
  | terminated {content rest : List UInt8} (unbroken : Unbroken content) (ending : LineEnd)
      (complete : ending = .carriageReturn → rest.head? ≠ some Reader.lineFeed) :
      FirstLine (content ++ ending.bytes ++ rest) ⟨content, ending.bytes⟩ rest

inductive Lines : List UInt8 → List Line → Prop where
  | nil : Lines [] []
  | cons {bytes rest : List UInt8} {line : Line} {lines : List Line} (first : FirstLine bytes line rest)
      (others : Lines rest lines) : Lines bytes (line :: lines)

namespace FirstLine

variable {bytes rest : List UInt8} {line : Line}

theorem bytes_eq (first : FirstLine bytes line rest) : bytes = line.content ++ line.terminator ++ rest := by
  cases first with
  | unterminated => simp
  | terminated => rfl

theorem length_pos (first : FirstLine bytes line rest) : 0 < line.length := by
  cases first with
  | unterminated _ nonempty => exact Nat.add_pos_left (List.length_pos_iff.mpr nonempty) _
  | terminated _ ending _ => cases ending <;> exact Nat.add_pos_right _ (by simp [LineEnd.bytes])

theorem rest_shorter (first : FirstLine bytes line rest) : rest.length < bytes.length := by
  rw [first.bytes_eq, List.length_append, List.length_append]
  exact Nat.lt_add_of_pos_left first.length_pos

theorem cons {byte : UInt8} (noFeed : byte ≠ Reader.lineFeed) (noReturn : byte ≠ Reader.carriageReturn)
    (first : FirstLine bytes line rest) :
    FirstLine (byte :: bytes) ⟨byte :: line.content, line.terminator⟩ rest := by
  cases first with
  | unterminated unbroken _ => exact .unterminated (unbroken.cons noFeed noReturn) (List.cons_ne_nil _ _)
  | terminated unbroken ending complete => exact .terminated (unbroken.cons noFeed noReturn) ending complete

end FirstLine

theorem exists_firstLine {bytes : List UInt8} (nonempty : bytes ≠ []) : ∃ line rest, FirstLine bytes line rest := by
  have nothing : Unbroken [] := ⟨List.not_mem_nil, List.not_mem_nil⟩
  induction bytes with
  | nil => contradiction
  | cons byte bytes ih =>
    by_cases feed : byte = Reader.lineFeed
    · subst feed
      exact ⟨_, _, .terminated nothing .lineFeed (by rintro ⟨⟩)⟩
    by_cases carriage : byte = Reader.carriageReturn
    · subst carriage
      by_cases followed : bytes.head? = some Reader.lineFeed
      · obtain ⟨rest, rfl⟩ := List.head?_eq_some_iff.mp followed
        exact ⟨_, _, .terminated nothing .both (by rintro ⟨⟩)⟩
      · exact ⟨_, _, .terminated nothing .carriageReturn fun _ => followed⟩
    cases bytes with
    | nil => exact ⟨_, _, .unterminated (nothing.cons feed carriage) (List.cons_ne_nil _ _)⟩
    | cons next others =>
      obtain ⟨line, rest, first⟩ := ih (List.cons_ne_nil _ _)
      exact ⟨_, _, first.cons feed carriage⟩

theorem exists_lines (bytes : List UInt8) : ∃ lines, Lines bytes lines := by
  induction size : bytes.length using Nat.strongRecOn generalizing bytes with
  | _ size ih =>
    subst size
    by_cases empty : bytes = []
    · exact ⟨[], empty ▸ .nil⟩
    · obtain ⟨line, rest, first⟩ := exists_firstLine empty
      obtain ⟨lines, others⟩ := ih _ first.rest_shorter rest rfl
      exact ⟨line :: lines, .cons first others⟩

namespace Reader

section

variable {position : Nat} {bytes content rest : List UInt8} {first : Line} {last : Option UInt8}

-- As long as no terminator has been seen, the text of the line reaches up to the cursor.
theorem lineStop_plain {byte : UInt8} (noFeed : byte ≠ lineFeed) (noReturn : byte ≠ carriageReturn) :
    lineStop position ⟨position, byte :: rest, last⟩ =
      lineStop (position + 1) ⟨position + 1, rest, some byte⟩ := by
  rw [lineStop]
  simp [Cursor.isExhausted, u8, noFeed, noReturn]

theorem lineStop_unbroken (unbroken : Unbroken content) (rest : List UInt8) :
    ∃ before, lineStop position ⟨position, content ++ rest, last⟩ =
      lineStop (position + content.length) ⟨position + content.length, rest, before⟩ := by
  induction content generalizing position last with
  | nil => exact ⟨last, rfl⟩
  | cons byte others ih =>
    have noFeed : byte ≠ lineFeed := fun same => unbroken.noFeed (by simp [same])
    have noReturn : byte ≠ carriageReturn := fun same => unbroken.noReturn (by simp [same])
    have remaining : Unbroken others :=
      ⟨fun present => unbroken.noFeed (List.mem_cons_of_mem _ present),
        fun present => unbroken.noReturn (List.mem_cons_of_mem _ present)⟩
    rw [List.cons_append, lineStop_plain noFeed noReturn, List.length_cons, Nat.add_comm others.length,
      ← Nat.add_assoc]
    exact ih remaining

theorem skipLineFeed_other (position : Nat) (last : Option UInt8) (other : rest.head? ≠ some lineFeed) :
    ∃ before, skipLineFeed ⟨position, rest, last⟩ = .ok () ⟨position, rest, before⟩ := by
  cases rest with
  | nil => exact ⟨last, rfl⟩
  | cons byte rest =>
    have noFeed : byte ≠ lineFeed := fun same => other (by simp [same])
    refine ⟨none, ?_⟩
    simp [skipLineFeed, Cursor.isExhausted, u8, noFeed, putBack]

theorem lineStop_ending (ending : LineEnd) (complete : ending = .carriageReturn → rest.head? ≠ some lineFeed) :
    ∃ before, lineStop position ⟨position, ending.bytes ++ rest, last⟩ =
      .ok position ⟨position + ending.bytes.length, rest, before⟩ := by
  rw [lineStop]
  cases ending with
  | lineFeed => exact ⟨_, rfl⟩
  | both => exact ⟨_, rfl⟩
  | carriageReturn =>
    obtain ⟨before, skipped⟩ := skipLineFeed_other (position + 1) (some carriageReturn) (complete rfl)
    have ends : carriageReturn ≠ lineFeed := by decide
    refine ⟨before, ?_⟩
    simp [LineEnd.bytes, Cursor.isExhausted, u8, ends, skipped]

theorem lineStop_of_firstLine (split : FirstLine bytes first rest) (position : Nat) (last : Option UInt8) :
    ∃ before, lineStop position ⟨position, bytes, last⟩ =
      .ok (position + first.content.length) ⟨position + first.length, rest, before⟩ := by
  cases split with
  | unterminated unbroken _ =>
    obtain ⟨before, reached⟩ := lineStop_unbroken unbroken []
    rw [List.append_nil] at reached
    rw [reached, lineStop]
    exact ⟨before, rfl⟩
  | terminated unbroken ending complete =>
    rw [List.append_assoc]
    obtain ⟨before, reached⟩ := lineStop_unbroken unbroken _
    obtain ⟨final, ended⟩ := lineStop_ending ending complete
    rw [reached, ended, Nat.add_assoc]
    exact ⟨final, rfl⟩

end

def delivered (decoded : Except FormatError String) (next : Cursor) :
    EStateM.Result FormatError Cursor (Option String) :=
  match decoded with
  | .ok content => .ok (some content) next
  | .error cause => .error cause next

theorem line_of_firstLine {bytes rest : List UInt8} {first : Line} (split : FirstLine bytes first rest)
    (position : Nat) (last : Option UInt8) :
    line ⟨position, bytes, last⟩ = delivered (decodeText first.content) ⟨position + first.length, rest, none⟩ := by
  have left : (Cursor.mk position bytes last).isExhausted = false := by
    have shorter := split.rest_shorter
    cases bytes with
    | nil => cases shorter
    | cons => rfl
  have content : bytes.take (position + first.content.length - position) = first.content := by
    rw [Nat.add_sub_cancel_left, split.bytes_eq, List.append_assoc, List.take_left]
  obtain ⟨before, stopped⟩ := lineStop_of_firstLine split position last
  rw [line, left, stopped]
  simp only [content]
  cases decodeText first.content <;> rfl

theorem line_error_shorter {cursor next : Cursor} {cause : FormatError} (ran : line cursor = .error cause next) :
    next.rest.length < cursor.rest.length := by
  obtain ⟨position, bytes, last⟩ := cursor
  by_cases empty : bytes = []
  · subst empty
    cases ran
  · obtain ⟨first, rest, split⟩ := exists_firstLine empty
    rw [line_of_firstLine split] at ran
    cases decoded : decodeText first.content with
    | ok content =>
      rw [decoded] at ran
      cases ran
    | error other =>
      rw [decoded] at ran
      cases ran
      exact split.rest_shorter

-- Reads lines until there are no more, past those that do not decode. Each comes with the cursor that it leaves.
def lines (cursor : Cursor) : List (Except FormatError String × Cursor) :=
  match _ran : line cursor with
  | .ok none _ => []
  | .ok (some content) next => (.ok content, next) :: lines next
  | .error cause next => (.error cause, next) :: lines next
termination_by cursor.rest.length
decreasing_by
  · exact line_shorter _ran
  · exact line_error_shorter _ran

theorem lines_of_delivered {cursor next : Cursor} {decoded : Except FormatError String}
    (ran : line cursor = delivered decoded next) : lines cursor = (decoded, next) :: lines next := by
  rw [lines]
  split
  next final ended =>
    rw [ran] at ended
    cases decoded <;> cases ended
  next content final ended =>
    rw [ran] at ended
    cases decoded <;> cases ended
    rfl
  next cause final ended =>
    rw [ran] at ended
    cases decoded <;> cases ended
    rfl

end Reader

theorem FirstLine.unique {bytes rest rest' : List UInt8} {line line' : Line} (split : FirstLine bytes line rest)
    (other : FirstLine bytes line' rest') : line = line' ∧ rest = rest' := by
  -- The reader stops in one place, and it stops where either of them says.
  obtain ⟨before, stopped⟩ := Reader.lineStop_of_firstLine split 0 none
  obtain ⟨before', stopped'⟩ := Reader.lineStop_of_firstLine other 0 none
  rw [stopped, EStateM.Result.ok.injEq, Cursor.mk.injEq] at stopped'
  obtain ⟨size, _, rfl, _⟩ := stopped'
  have whole := split.bytes_eq.symm.trans other.bytes_eq
  obtain ⟨content, terminator⟩ := List.append_inj (List.append_cancel_right whole) (Nat.add_left_cancel size)
  obtain ⟨_, _⟩ := line
  subst content terminator
  exact ⟨rfl, rfl⟩

theorem Lines.unique {bytes : List UInt8} {lines lines' : List Line} (all : Lines bytes lines)
    (again : Lines bytes lines') : lines = lines' := by
  induction all generalizing lines' with
  | nil =>
    cases again with
    | nil => rfl
    | cons first => exact absurd first.rest_shorter (Nat.not_lt_zero _)
  | @cons bytes rest line lines first _ ih =>
    cases again with
    | nil => exact absurd first.rest_shorter (Nat.not_lt_zero _)
    | cons other others =>
      obtain ⟨rfl, rfl⟩ := first.unique other
      rw [ih others]

def Line.outcomes (bytes : List UInt8) : Nat → List Line → List (Except FormatError String × Cursor)
  | _, [] => []
  | position, line :: others =>
    (Reader.decodeText line.content, .placed bytes (position + line.length)) ::
      outcomes bytes (position + line.length) others

namespace Reader

theorem lines_of_split {bytes rest : List UInt8} {split : List Line} (all : Lines rest split) {position : Nat}
    (left : rest = bytes.drop position) (last : Option UInt8) :
    lines ⟨position, rest, last⟩ = Line.outcomes bytes position split := by
  induction all generalizing position last with
  | nil =>
    rw [lines]
    rfl
  | @cons rest others line split first _ ih =>
    have behind : others = bytes.drop (position + line.length) := by
      rw [← List.drop_drop, ← left, first.bytes_eq, Line.length, ← List.length_append, List.drop_left]
    rw [lines_of_delivered (line_of_firstLine first position last), ih behind, behind]
    rfl

theorem malformedText_of_decodeText {bytes : List UInt8} {cause : FormatError}
    (failed : decodeText bytes = .error cause) : ∃ position, cause = .malformedText position := by
  unfold decodeText at failed
  cases decoded : ModifiedUtf8.decode bytes with
  | ok content =>
    rw [decoded] at failed
    cases failed
  | error position =>
    rw [decoded] at failed
    cases failed
    exact ⟨position, rfl⟩

theorem mem_outcomes {bytes : List UInt8} {position : Nat} {split : List Line} {decoded : Except FormatError String}
    {next : Cursor} (present : (decoded, next) ∈ Line.outcomes bytes position split) :
    ∃ line ∈ split, decoded = decodeText line.content := by
  induction split generalizing position with
  | nil => cases present
  | cons line others ih =>
    rcases List.mem_cons.mp present with same | later
    · exact ⟨line, List.mem_cons_self .., congrArg Prod.fst same⟩
    · obtain ⟨other, among, same⟩ := ih later
      exact ⟨other, List.mem_cons_of_mem _ among, same⟩

/-- From any place, the bytes that are left have exactly one division into lines. Reading lines up to the end gives one
result for each of them, in order: what its content decodes to. A line that does not decode is used up like any other,
and nothing else goes wrong. -/
theorem lines_divide (bytes : List UInt8) (start : Nat) (last : Option UInt8) :
    ∃ split, Lines (bytes.drop start) split ∧ (∀ other, Lines (bytes.drop start) other → other = split) ∧
      lines ⟨start, bytes.drop start, last⟩ = Line.outcomes bytes start split ∧
      ∀ cause next, (.error cause, next) ∈ lines ⟨start, bytes.drop start, last⟩ →
        ∃ position, cause = .malformedText position := by
  obtain ⟨split, all⟩ := exists_lines (bytes.drop start)
  have ran := lines_of_split all rfl last
  refine ⟨split, all, fun other again => again.unique all, ran, fun cause next present => ?_⟩
  rw [ran] at present
  obtain ⟨line, _, failed⟩ := mem_outcomes present
  exact malformedText_of_decodeText failed.symm

end Reader

end PhaseCheck
