import Mathlib.Algebra.Group.Nat.Defs
import PhaseCheck.Proofs.Steps
import PhaseCheck.Proofs.Text.Encoding
import PhaseCheck.Binary.Cursor

set_option autoImplicit false

namespace PhaseCheck

def bigEndianBytes : Nat → Nat → List UInt8
  | 0, _ => []
  | width + 1, value => bigEndianBytes width (value / 256) ++ [value.toUInt8]

@[simp] theorem length_bigEndianBytes (width value : Nat) : (bigEndianBytes width value).length = width := by
  induction width generalizing value with
  | zero => rfl
  | succ width ih => simp [bigEndianBytes, ih]

theorem toNat_toUInt16_of_lt {value : Nat} (small : value < 2 ^ 16) : value.toUInt16.toNat = value := by
  simp only [Nat.toUInt16, UInt16.toNat_ofNat']
  omega

theorem toNat_toUInt32_of_lt {value : Nat} (small : value < 2 ^ 32) : value.toUInt32.toNat = value := by
  simp only [Nat.toUInt32, UInt32.toNat_ofNat']
  omega

theorem bigEndian_bigEndianBytes (width value : Nat) :
    bigEndian (bigEndianBytes width value) = value % 256 ^ width := by
  induction width generalizing value with
  | zero => simp [bigEndianBytes, bigEndian, Nat.mod_one]
  | succ width ih =>
    have step : bigEndian (bigEndianBytes (width + 1) value) =
        bigEndian (bigEndianBytes width (value / 256)) * 256 + value.toUInt8.toNat := by
      simp [bigEndian, bigEndianBytes]
    rw [step, ih, Nat.pow_succ, Nat.mul_comm (256 ^ width) 256, Nat.mod_mul]
    simp only [Nat.toUInt8, UInt8.toNat_ofNat']
    omega

namespace Reader

variable {α β : Type}

/-- In front of any input, `bytes` are used up to give `value`. -/
def Reads (read : Reader α) (bytes : List UInt8) (value : α) : Prop :=
  ∀ position rest last, ∃ final,
    read ⟨position, bytes ++ rest, last⟩ = .ok value ⟨position + bytes.length, rest, final⟩

namespace Reads

variable {read : Reader α} {bytes more : List UInt8} {value : α}

theorem done (value : α) : Reads (pure value) [] value :=
  fun _ _ last => ⟨last, rfl⟩

theorem andThen {next : α → Reader β} {result : β} (first : Reads read bytes value)
    (second : Reads (next value) more result) : Reads (read >>= next) (bytes ++ more) result := by
  intro position rest last
  obtain ⟨middle, ran⟩ := first position (more ++ rest) last
  obtain ⟨final, continued⟩ := second (position + bytes.length) rest middle
  refine ⟨final, ?_⟩
  rw [List.append_assoc, bind_of_ok ran, continued, List.length_append, Nat.add_assoc]

theorem andLast {next : α → Reader β} {result : β} (first : Reads read bytes value)
    (second : Reads (next value) [] result) : Reads (read >>= next) bytes result := by
  have both := first.andThen second
  rwa [List.append_nil] at both

theorem andReturn (first : Reads read bytes value) (finish : α → β) :
    Reads (do return finish (← read)) bytes (finish value) :=
  first.andLast (.done (finish value))

theorem lifted {outcome : Except FormatError α} (known : outcome = .ok value) :
    Reads (liftM outcome) [] value := by
  subst known
  exact .done value

theorem lifting {outcome : Except FormatError α} {next : α → Reader β} {result : β} (known : outcome = .ok value)
    (second : Reads (next value) bytes result) : Reads (liftM outcome >>= next) bytes result := by
  subst known
  exact second

theorem taken (bytes : List UInt8) : Reads (take bytes.length) bytes bytes := by
  intro position rest last
  exact ⟨none, by simp [take]⟩

theorem byte (value : UInt8) : Reads u8 [value] value :=
  fun _ _ _ => ⟨some value, rfl⟩

theorem number (width value : Nat) :
    Reads (do return bigEndian (← take width)) (bigEndianBytes width value) (value % 256 ^ width) := by
  have taking := taken (bigEndianBytes width value)
  rw [length_bigEndianBytes] at taking
  simpa [bigEndian_bigEndianBytes] using taking.andReturn bigEndian

theorem short (value : UInt16) : Reads u16 (bigEndianBytes 2 value.toNat) value := by
  have small : value.toNat % 256 ^ 2 = value.toNat := Nat.mod_eq_of_lt value.toNat_lt
  have reading := (number 2 value.toNat).andReturn Nat.toUInt16
  rw [small] at reading
  simpa [u16, Nat.toUInt16] using reading

theorem int (value : UInt32) : Reads u32 (bigEndianBytes 4 value.toNat) value := by
  have small : value.toNat % 256 ^ 4 = value.toNat := Nat.mod_eq_of_lt value.toNat_lt
  have reading := (number 4 value.toNat).andReturn Nat.toUInt32
  rw [small] at reading
  simpa [u32, Nat.toUInt32] using reading

theorem long (value : UInt64) : Reads u64 (bigEndianBytes 8 value.toNat) value := by
  have small : value.toNat % 256 ^ 8 = value.toNat := Nat.mod_eq_of_lt value.toNat_lt
  have reading := (number 8 value.toNat).andReturn Nat.toUInt64
  rw [small] at reading
  simpa [u64, Nat.toUInt64] using reading

theorem shortSize {size : Nat} (small : size < 2 ^ 16) : Reads u16 (bigEndianBytes 2 size) size.toUInt16 := by
  have reading := short size.toUInt16
  rwa [toNat_toUInt16_of_lt small] at reading

theorem intSize {size : Nat} (small : size < 2 ^ 32) : Reads u32 (bigEndianBytes 4 size) size.toUInt32 := by
  have reading := int size.toUInt32
  rwa [toNat_toUInt32_of_lt small] at reading

theorem block {next : List UInt8 → Reader β} {result : β} (small : bytes.length < 2 ^ 32)
    (second : Reads (next bytes) more result) :
    Reads (do let length ← u32; let taken ← take length.toNat; next taken)
      (bigEndianBytes 4 bytes.length ++ (bytes ++ more)) result := by
  refine (intSize small).andThen ?_
  rw [toNat_toUInt32_of_lt small]
  exact (taken bytes).andThen second

theorem signedShort (value : Int16) : Reads i16 (bigEndianBytes 2 value.toUInt16.toNat) value := by
  have reading := (short value.toUInt16).andReturn UInt16.toInt16
  rwa [Int16.toInt16_toUInt16] at reading

theorem signedInt (value : Int32) : Reads i32 (bigEndianBytes 4 value.toUInt32.toNat) value := by
  have reading := (int value.toUInt32).andReturn UInt32.toInt32
  rwa [Int32.toInt32_toUInt32] at reading

theorem signedLong (value : Int64) : Reads i64 (bigEndianBytes 8 value.toUInt64.toNat) value := by
  have reading := (long value.toUInt64).andReturn UInt64.toInt64
  rwa [Int64.toInt64_toUInt64] at reading

theorem times {items : List β} {bytesOf : β → List UInt8} {valueOf : β → α}
    (each : ∀ item ∈ items, Reads read (bytesOf item) (valueOf item)) :
    Reads (Reader.times read items.length) (items.flatMap bytesOf) (items.map valueOf) := by
  induction items with
  | nil => exact .done []
  | cons item rest ih =>
    have others := ih fun other later => each other (List.mem_cons_of_mem _ later)
    exact (each item (List.mem_cons_self ..)).andThen (others.andReturn (valueOf item :: ·))

theorem counted {items : List β} {bytesOf : β → List UInt8} {valueOf : β → α} (few : items.length < 2 ^ 16)
    (each : ∀ item ∈ items, Reads read (bytesOf item) (valueOf item)) :
    Reads (Reader.counted read) (bigEndianBytes 2 items.length ++ items.flatMap bytesOf) (items.map valueOf) := by
  refine (shortSize few).andThen ?_
  -- The count that is read back is the length, since that fits into sixteen bits.
  rw [toNat_toUInt16_of_lt few]
  exact times each

theorem whole (reads : Reads read bytes value) : Reader.whole read bytes = .ok value := by
  obtain ⟨final, ran⟩ := reads 0 [] none
  have used : (do let value ← read; finish; return value : Reader α) (.ofBytes bytes) =
      .ok value ⟨0 + bytes.length, [], final⟩ := by
    rw [List.append_nil] at ran
    rw [Cursor.ofBytes, bind_of_ok ran]
    rfl
  rw [Reader.whole, used]

theorem text {content : String} (short : (ModifiedUtf8.encode content).length < 2 ^ 16) :
    Reads Reader.text
      (bigEndianBytes 2 (ModifiedUtf8.encode content).length ++ ModifiedUtf8.encode content) content := by
  have decoded : decodeText (ModifiedUtf8.encode content) = .ok content := by
    rw [decodeText, ModifiedUtf8.decode_encode]
    rfl
  refine (shortSize short).andThen ?_
  rw [toNat_toUInt16_of_lt short]
  exact (taken _).andLast (lifted decoded)

end Reads

/-- In front of any input, `bytes` make a reader fail. -/
def Refuses (read : Reader α) (bytes : List UInt8) (cause : FormatError) : Prop :=
  ∀ position rest last, ∃ final, read ⟨position, bytes ++ rest, last⟩ = .error cause final

namespace Refuses

variable {read : Reader α} {bytes more : List UInt8} {value : α} {cause : FormatError}

theorem failed (cause : FormatError) (bytes : List UInt8) : Refuses (throw cause : Reader α) bytes cause :=
  fun _ _ _ => ⟨_, rfl⟩

theorem extend (refuses : Refuses read bytes cause) (more : List UInt8) : Refuses read (bytes ++ more) cause := by
  intro position rest last
  rw [List.append_assoc]
  exact refuses position (more ++ rest) last

theorem andThen {next : α → Reader β} (refuses : Refuses read bytes cause) : Refuses (read >>= next) bytes cause := by
  intro position rest last
  obtain ⟨final, ran⟩ := refuses position rest last
  exact ⟨final, bind_of_error ran⟩

theorem behind {next : α → Reader β} (first : Reads read bytes value) (second : Refuses (next value) more cause) :
    Refuses (read >>= next) (bytes ++ more) cause := by
  intro position rest last
  obtain ⟨middle, ran⟩ := first position (more ++ rest) last
  rw [List.append_assoc, bind_of_ok ran]
  exact second _ rest middle

theorem lifting {outcome : Except FormatError α} {next : α → Reader β} (known : outcome = .ok value)
    (second : Refuses (next value) bytes cause) : Refuses (liftM outcome >>= next) bytes cause := by
  subst known
  exact second

-- One thing that is refused is enough, as long as those before it are read or refused for the same cause.
theorem times {items : List β} {bytesOf : β → List UInt8} {valueOf : β → α}
    (each : ∀ item ∈ items, Reads read (bytesOf item) (valueOf item) ∨ Refuses read (bytesOf item) cause)
    (some : ∃ item ∈ items, Refuses read (bytesOf item) cause) :
    Refuses (Reader.times read items.length) (items.flatMap bytesOf) cause := by
  induction items with
  | nil =>
    obtain ⟨_, present, _⟩ := some
    cases present
  | cons item rest ih =>
    obtain ⟨first, others⟩ := List.forall_mem_cons.mp each
    by_cases refused : Refuses read (bytesOf item) cause
    next => exact refused.andThen.extend _
    next =>
      have later : ∃ other ∈ rest, Refuses read (bytesOf other) cause := by
        obtain ⟨other, present, refuses⟩ := some
        rcases List.mem_cons.mp present with rfl | later
        · exact absurd refuses refused
        · exact ⟨other, later, refuses⟩
      exact behind (first.resolve_right refused) (ih others later).andThen

theorem counted {items : List β} {bytesOf : β → List UInt8} {valueOf : β → α} (few : items.length < 2 ^ 16)
    (each : ∀ item ∈ items, Reads read (bytesOf item) (valueOf item) ∨ Refuses read (bytesOf item) cause)
    (some : ∃ item ∈ items, Refuses read (bytesOf item) cause) :
    Refuses (Reader.counted read) (bigEndianBytes 2 items.length ++ items.flatMap bytesOf) cause := by
  refine behind (.shortSize few) ?_
  rw [toNat_toUInt16_of_lt few]
  exact times each some

theorem whole (refuses : Refuses read bytes cause) : Reader.whole read bytes = .error cause := by
  obtain ⟨final, ran⟩ := refuses 0 [] none
  rw [List.append_nil] at ran
  rw [Reader.whole, Cursor.ofBytes, bind_of_error ran]

end Refuses

end Reader

end PhaseCheck
