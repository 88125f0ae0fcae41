import PhaseCheck.Text.ModifiedUtf8

set_option autoImplicit false

namespace PhaseCheck.ModifiedUtf8

def tail (value : Nat) : UInt8 :=
  (128 + value % 64).toUInt8

def encodeUnit (unit : Nat) : List UInt8 :=
  if 0 < unit ∧ unit < 0x80 then
    [unit.toUInt8]
  else if unit < 0x800 then
    [(0xC0 + unit / 64).toUInt8, tail unit]
  else
    [(0xE0 + unit / 4096).toUInt8, tail (unit / 64), tail unit]

def units (c : Char) : List Nat :=
  if c.toNat < 0x10000 then
    [c.toNat]
  else
    [0xD800 + (c.toNat - 0x10000) / 0x400, 0xDC00 + (c.toNat - 0x10000) % 0x400]

def encodeChars (chars : List Char) : List UInt8 :=
  (chars.flatMap units).flatMap encodeUnit

def encode (text : String) : List UInt8 :=
  encodeChars text.toList

theorem toNat_toUInt8_of_lt {value : Nat} (small : value < 256) : value.toUInt8.toNat = value := by
  simp only [Nat.toUInt8, UInt8.toNat_ofNat']
  omega

theorem continuation?_tail (value : Nat) : continuation? (tail value) = some (value % 64) := by
  have byte : (tail value).toNat = 128 + value % 64 := toNat_toUInt8_of_lt (by omega)
  rw [continuation?, byte, if_pos (by omega)]
  congr 1
  omega

theorem unit?_encodeUnit {unit : Nat} (small : unit < 0x10000) (rest : List UInt8) :
    unit? (encodeUnit unit ++ rest) = some (unit, rest) := by
  unfold encodeUnit
  split
  next ascii =>
    have lead : unit.toUInt8.toNat = unit := toNat_toUInt8_of_lt (by omega)
    simp [unit?, lead, ascii]
  next notAscii =>
    split
    next short =>
      have lead : (0xC0 + unit / 64).toUInt8.toNat = 0xC0 + unit / 64 := toNat_toUInt8_of_lt (by omega)
      simp only [List.cons_append, List.nil_append, unit?, lead]
      rw [if_neg (by omega), if_pos (by omega), continuation?_tail]
      simp only [Option.map_some, Option.some.injEq, Prod.mk.injEq, and_true]
      omega
    next long =>
      have lead : (0xE0 + unit / 4096).toUInt8.toNat = 0xE0 + unit / 4096 := toNat_toUInt8_of_lt (by omega)
      simp only [List.cons_append, List.nil_append, unit?, lead]
      rw [if_neg (by omega), if_neg (by omega), if_pos (by omega), continuation?_tail, continuation?_tail]
      simp only [Option.some.injEq, Prod.mk.injEq, and_true]
      omega

theorem isHighSurrogate_iff {unit : Nat} : isHighSurrogate unit = true ↔ 0xD800 ≤ unit ∧ unit < 0xDC00 := by
  simp only [isHighSurrogate, Bool.and_eq_true, decide_eq_true_eq]
  omega

theorem isLowSurrogate_iff {unit : Nat} : isLowSurrogate unit = true ↔ 0xDC00 ≤ unit ∧ unit < 0xE000 := by
  simp only [isLowSurrogate, Bool.and_eq_true, decide_eq_true_eq]
  omega

theorem single_eq (unit : Nat) :
    single unit = if 0xD800 ≤ unit ∧ unit < 0xE000 then replacement else Char.ofNat unit := by
  have surrogate : (isHighSurrogate unit || isLowSurrogate unit) = true ↔ 0xD800 ≤ unit ∧ unit < 0xE000 := by
    rw [Bool.or_eq_true, isHighSurrogate_iff, isLowSurrogate_iff]
    omega
  simp only [single, surrogate]

section

variable {bytes rest after : List UInt8} {unit low : Nat}

theorem readChars_of_stuck (stuck : unit? bytes = none) :
    readChars bytes = if bytes = [] then .ok [] else .error bytes := by
  rw [readChars]
  split
  next => rfl
  next =>
    split
    next => rfl
    next taken => rw [stuck] at taken; cases taken

-- A unit that no low surrogate completes gives a character of its own, whatever is found when looking ahead.
theorem readChars_of_single (first : unit? bytes = some (unit, rest))
    (alone : isHighSurrogate unit = true → ∀ low after, unit? rest = some (low, after) → isLowSurrogate low = false) :
    readChars bytes = (readChars rest).map (single unit :: ·) := by
  have nonempty : bytes ≠ [] := by rintro rfl; simp [unit?] at first
  rw [readChars, if_neg nonempty]
  split
  next nothing => rw [first] at nothing; cases nothing
  next again =>
    rw [first] at again
    cases again
    simp only
    split
    next ahead =>
      obtain ⟨high, more⟩ : isHighSurrogate unit = true ∧ rest ≠ [] := by simpa using ahead
      have replaced : single unit = replacement := by simp [single, high]
      split
      next stuck => rw [readChars_of_stuck stuck, if_neg more]; rfl
      next low after second => simp [alone high low after second, replaced]
    next => rfl

theorem readChars_of_pair (first : unit? bytes = some (unit, rest)) (second : unit? rest = some (low, after))
    (high : isHighSurrogate unit = true) (isLow : isLowSurrogate low = true) :
    readChars bytes = (readChars after).map (pair unit low :: ·) := by
  have nonempty : bytes ≠ [] := by rintro rfl; simp [unit?] at first
  have more : rest.isEmpty = false := by
    cases rest with
    | nil => simp [unit?] at second
    | cons => rfl
  rw [readChars, if_neg nonempty]
  split
  next nothing => rw [first] at nothing; cases nothing
  next again =>
    rw [first] at again
    cases again
    simp only [high, more, Bool.not_false, Bool.and_self, ↓reduceIte]
    split
    next nothing => rw [second] at nothing; cases nothing
    next again =>
      rw [second] at again
      cases again
      simp [isLow]

end

theorem toNat_lt_or_ge (c : Char) : c.toNat < 0xD800 ∨ (0xDFFF < c.toNat ∧ c.toNat < 0x110000) :=
  c.valid

theorem single_toNat (c : Char) : single c.toNat = c := by
  have range := toNat_lt_or_ge c
  rw [single_eq, if_neg (by omega)]
  exact Char.ofNat_toNat c

theorem encodeChars_basic {c : Char} (basic : c.toNat < 0x10000) : encodeChars [c] = encodeUnit c.toNat := by
  simp [encodeChars, units, basic]

theorem encodeChars_supplementary {c : Char} (beyond : ¬c.toNat < 0x10000) :
    encodeChars [c] = encodeUnit (0xD800 + (c.toNat - 0x10000) / 0x400) ++
      encodeUnit (0xDC00 + (c.toNat - 0x10000) % 0x400) := by
  simp [encodeChars, units, beyond]

theorem readChars_encodeChars_cons (c : Char) (rest : List UInt8) :
    readChars (encodeChars [c] ++ rest) = (readChars rest).map (c :: ·) := by
  have range := toNat_lt_or_ge c
  -- No character is a surrogate, so a unit that is one can only come from a pair.
  by_cases basic : c.toNat < 0x10000
  · rw [encodeChars_basic basic, readChars_of_single (unit?_encodeUnit basic rest), single_toNat]
    rw [isHighSurrogate_iff]
    omega
  · rw [encodeChars_supplementary basic, List.append_assoc,
      readChars_of_pair (unit?_encodeUnit (by omega) _) (unit?_encodeUnit (by omega) _)]
    · have same : pair (0xD800 + (c.toNat - 0x10000) / 0x400) (0xDC00 + (c.toNat - 0x10000) % 0x400) = c := by
        rw [pair, show 0x10000 + (0xD800 + (c.toNat - 0x10000) / 0x400 - 0xD800) * 0x400 +
          (0xDC00 + (c.toNat - 0x10000) % 0x400 - 0xDC00) = c.toNat by omega]
        exact Char.ofNat_toNat c
      rw [same]
    · rw [isHighSurrogate_iff]
      omega
    · rw [isLowSurrogate_iff]
      omega

theorem readChars_encodeChars (chars : List Char) : readChars (encodeChars chars) = .ok chars := by
  induction chars with
  | nil => simp [encodeChars, readChars]
  | cons c rest ih =>
    have split : encodeChars (c :: rest) = encodeChars [c] ++ encodeChars rest := by simp [encodeChars]
    rw [split, readChars_encodeChars_cons, ih]
    rfl

theorem decode_encode (text : String) : decode (encode text) = .ok text := by
  rw [decode, encode, readChars_encodeChars]
  exact congrArg Except.ok String.ofList_toList

end PhaseCheck.ModifiedUtf8
