import Mathlib.Algebra.Group.Nat.Defs
import PhaseCheck.Proofs.Binary.Reads

set_option autoImplicit false

namespace PhaseCheck

namespace ModifiedUtf8

def byte {fixed free : Nat} (lead : BitVec fixed) (bits : BitVec free) : UInt8 :=
  .ofBitVec ((lead ++ bits).setWidth 8)

/-- Bytes that spell one code unit. Zero has no spelling in one byte. -/
inductive Spells : List UInt8 → Nat → Prop
  | one (bits : BitVec 7) : bits ≠ 0 → Spells [byte 0b0#1 bits] bits.toNat
  | two (high : BitVec 5) (low : BitVec 6) : Spells [byte 0b110#3 high, byte 0b10#2 low] (high ++ low).toNat
  | three (high : BitVec 4) (middle low : BitVec 6) :
      Spells [byte 0b1110#4 high, byte 0b10#2 middle, byte 0b10#2 low] (high ++ middle ++ low).toNat

inductive Splits : List UInt8 → List Nat → Prop
  | done : Splits [] []
  | next {front rest : List UInt8} {unit : Nat} {units : List Nat} :
      Spells front unit → Splits rest units → Splits (front ++ rest) (unit :: units)

def lone (unit : Nat) : Char :=
  if 0xD800 ≤ unit ∧ unit < 0xE000 then '\uFFFD' else Char.ofNat unit

/-- UTF-16 in which surrogates that belong to no pair are replaced. Each unit of a pair gives its last ten bits. -/
def lossy : List Nat → List Char
  | unit :: other :: rest =>
    if (0xD800 ≤ unit ∧ unit < 0xDC00) ∧ (0xDC00 ≤ other ∧ other < 0xE000) then
      Char.ofNat (0x10000 + (BitVec.ofNat 10 unit ++ BitVec.ofNat 10 other).toNat) :: lossy rest
    else
      lone unit :: lossy (other :: rest)
  | [unit] => [lone unit]
  | [] => []

theorem toNat_append {width more : Nat} (high : BitVec width) (low : BitVec more) :
    (high ++ low).toNat = high.toNat * 2 ^ more + low.toNat := by
  rw [BitVec.toNat_append, ← Nat.shiftLeft_add_eq_or_of_lt low.isLt, Nat.shiftLeft_eq]

section

variable {fixed free : Nat} (eight : fixed + free = 8) (lead : BitVec fixed)

include eight

theorem toNat_byte (bits : BitVec free) : (byte lead bits).toNat = lead.toNat * 2 ^ free + bits.toNat := by
  have fits : (lead ++ bits).toNat < 2 ^ 8 := eight ▸ (lead ++ bits).isLt
  change ((lead ++ bits).setWidth 8).toNat = _
  rw [BitVec.toNat_setWidth, Nat.mod_eq_of_lt fits, toNat_append]

theorem eq_byte {value : UInt8} (marked : value.toNat / 2 ^ free = lead.toNat) :
    value = byte lead (BitVec.ofNat free value.toNat) := by
  rw [← UInt8.toNat_inj, toNat_byte eight, BitVec.toNat_ofNat, ← marked, Nat.div_add_mod']

end

theorem continuation?_byte (bits : BitVec 6) : continuation? (byte 0b10#2 bits) = some bits.toNat := by
  have small := bits.isLt
  have value : (byte 0b10#2 bits).toNat = 128 + bits.toNat := toNat_byte rfl _ bits
  rw [continuation?, value, if_pos (by omega)]
  congr 1
  omega

theorem byte_of_continuation? {value : UInt8} {bits : Nat} (continues : continuation? value = some bits) :
    ∃ low : BitVec 6, value = byte 0b10#2 low ∧ bits = low.toNat := by
  unfold continuation? at continues
  split at continues
  next marked =>
    cases continues
    exact ⟨_, eq_byte rfl 0b10#2 marked, rfl⟩
  next => cases continues

theorem unit?_of_spells {front : List UInt8} {unit : Nat} (spells : Spells front unit) (rest : List UInt8) :
    unit? (front ++ rest) = some (unit, rest) := by
  cases spells with
  | one bits nonzero =>
    have small := bits.isLt
    have positive : bits.toNat ≠ 0 := fun zero => nonzero (BitVec.eq_of_toNat_eq zero)
    have lead : (byte 0b0#1 bits).toNat = bits.toNat := (toNat_byte rfl _ bits).trans (Nat.zero_add _)
    simp only [List.cons_append, List.nil_append, unit?, lead]
    rw [if_pos (by omega)]
  | two high low =>
    have small := high.isLt
    have lead : (byte 0b110#3 high).toNat = 192 + high.toNat := toNat_byte rfl _ high
    simp only [List.cons_append, List.nil_append, unit?, lead, continuation?_byte]
    rw [if_neg (by omega), if_pos (by omega)]
    simp only [Option.map_some, toNat_append, Option.some.injEq, Prod.mk.injEq, and_true]
    omega
  | three high middle low =>
    have small := high.isLt
    have lead : (byte 0b1110#4 high).toNat = 224 + high.toNat := toNat_byte rfl _ high
    simp only [List.cons_append, List.nil_append, unit?, lead, continuation?_byte]
    rw [if_neg (by omega), if_neg (by omega), if_pos (by omega)]
    simp only [toNat_append, Option.some.injEq, Prod.mk.injEq, and_true]
    omega

theorem spells_of_unit? {bytes rest : List UInt8} {unit : Nat} (taken : unit? bytes = some (unit, rest)) :
    ∃ front, Spells front unit ∧ bytes = front ++ rest := by
  unfold unit? at taken
  split at taken
  next => cases taken
  next first after =>
    simp only at taken
    split at taken
    next ascii =>
      cases taken
      have spelled := Spells.one (BitVec.ofNat 7 first.toNat) fun zero => by
        have none := congrArg BitVec.toNat zero
        simp only [BitVec.toNat_ofNat, BitVec.ofNat_eq_ofNat] at none
        omega
      rw [← eq_byte rfl 0b0#1 (Nat.div_eq_of_lt ascii.2), BitVec.toNat_ofNat, Nat.mod_eq_of_lt ascii.2] at spelled
      exact ⟨_, spelled, rfl⟩
    next =>
      split at taken
      next marked =>
        split at taken
        next second after =>
          obtain ⟨low, continues, same⟩ := Option.map_eq_some_iff.mp taken
          obtain ⟨low, rfl, rfl⟩ := byte_of_continuation? continues
          cases same
          have spelled := Spells.two (BitVec.ofNat 5 first.toNat) low
          rw [← eq_byte rfl 0b110#3 marked, toNat_append, BitVec.toNat_ofNat] at spelled
          exact ⟨_, spelled, rfl⟩
        next => cases taken
      next =>
        split at taken
        next marked =>
          split at taken
          next second third after =>
            split at taken
            next middle low continues ends =>
              obtain ⟨middle, rfl, rfl⟩ := byte_of_continuation? continues
              obtain ⟨low, rfl, rfl⟩ := byte_of_continuation? ends
              cases taken
              have spelled := Spells.three (BitVec.ofNat 4 first.toNat) middle low
              rw [← eq_byte rfl 0b1110#4 marked, toNat_append, toNat_append, BitVec.toNat_ofNat, Nat.add_mul,
                Nat.mul_assoc] at spelled
              exact ⟨_, spelled, rfl⟩
            next => cases taken
          next => cases taken
        next => cases taken

theorem unit?_eq_none_iff {bytes : List UInt8} :
    unit? bytes = none ↔ ∀ front unit rest, bytes = front ++ rest → ¬Spells front unit := by
  constructor
  · rintro stuck front unit rest rfl spells
    rw [unit?_of_spells spells] at stuck
    cases stuck
  · intro unspelled
    cases taken : unit? bytes with
    | none => rfl
    | some found =>
      obtain ⟨front, spells, split⟩ := spells_of_unit? taken
      exact absurd spells (unspelled front _ _ split)

theorem exists_splits (bytes : List UInt8) :
    ∃ front units rest, bytes = front ++ rest ∧ Splits front units ∧ unit? rest = none := by
  cases taken : unit? bytes with
  | none => exact ⟨[], [], bytes, rfl, .done, taken⟩
  | some found =>
    -- Every unit takes a byte at least, so this comes to an end.
    have := unit?_shorter taken
    obtain ⟨first, spells, split⟩ := spells_of_unit? taken
    obtain ⟨front, units, rest, same, splits, stuck⟩ := exists_splits found.2
    refine ⟨first ++ front, found.1 :: units, rest, ?_, .next spells splits, stuck⟩
    rw [split, same, List.append_assoc]
termination_by bytes.length

theorem single_eq_lone (unit : Nat) : single unit = lone unit :=
  single_eq unit

theorem pair_eq {high low : Nat} (isHigh : 0xD800 ≤ high ∧ high < 0xDC00) (isLow : 0xDC00 ≤ low ∧ low < 0xE000) :
    pair high low = Char.ofNat (0x10000 + (BitVec.ofNat 10 high ++ BitVec.ofNat 10 low).toNat) := by
  have bits : (BitVec.ofNat 10 high ++ BitVec.ofNat 10 low).toNat = (high - 0xD800) * 0x400 + (low - 0xDC00) := by
    rw [toNat_append, BitVec.toNat_ofNat, BitVec.toNat_ofNat]
    omega
  rw [pair, bits, Nat.add_assoc]

theorem readChars_of_splits {front rest : List UInt8} {units : List Nat} (splits : Splits front units)
    (stuck : unit? rest = none) :
    readChars (front ++ rest) = if rest = [] then .ok (lossy units) else .error rest := by
  -- Induction on the way that `lossy` takes, since a pair takes two units at once.
  fun_induction lossy units generalizing front with
  | case1 unit other more paired ih =>
    cases splits with
    | next first splits =>
      cases splits with
      | next second splits =>
        rw [List.append_assoc, List.append_assoc,
          readChars_of_pair (unit?_of_spells first _) (unit?_of_spells second _) (isHighSurrogate_iff.mpr paired.1)
            (isLowSurrogate_iff.mpr paired.2), ih splits, pair_eq paired.1 paired.2]
        split <;> rfl
  | case2 unit other more unpaired ih =>
    cases splits with
    | next first splits =>
      rw [List.append_assoc, readChars_of_single (unit?_of_spells first _), ih splits, single_eq_lone]
      · split <;> rfl
      -- The reader has seen the next unit, but leaves it to the next turn.
      · intro high low after second
        cases splits with
        | next spells _ =>
          rw [List.append_assoc, unit?_of_spells spells] at second
          cases second
          rw [← Bool.not_eq_true, isLowSurrogate_iff]
          rw [isHighSurrogate_iff] at high
          exact fun low => unpaired ⟨high, low⟩
  | case3 unit =>
    cases splits with
    | next first splits =>
      cases splits
      rw [List.append_assoc, List.nil_append, readChars_of_single (unit?_of_spells first _), readChars_of_stuck stuck,
        single_eq_lone]
      · split <;> rfl
      · intro _ low after second
        rw [stuck] at second
        cases second
  | case4 =>
    cases splits
    exact readChars_of_stuck stuck

end ModifiedUtf8

open ModifiedUtf8

namespace Reader

theorem decodeText_of_splits {front rest : List UInt8} {units : List Nat} (splits : Splits front units)
    (stuck : unit? rest = none) : decodeText (front ++ rest) =
      if rest = [] then .ok (String.ofList (lossy units)) else .error (.malformedText front.length) := by
  rw [decodeText, decode, readChars_of_splits splits stuck]
  by_cases ended : rest = []
  · simp only [ended, if_true]
    rfl
  · simp only [ended, if_false, List.length_append, Nat.add_sub_cancel]
    rfl

theorem decodeText_two_stages (bytes : List UInt8) :
    (∀ text, decodeText bytes = .ok text ↔ ∃ units, Splits bytes units ∧ text = String.ofList (lossy units)) ∧
    (∀ cause, decodeText bytes = .error cause ↔
      ∃ front units rest, bytes = front ++ rest ∧ Splits front units ∧
        rest ≠ [] ∧ (∀ spelling unit after, rest = spelling ++ after → ¬Spells spelling unit) ∧
        cause = .malformedText front.length) := by
  -- The bytes are split as far as can be; what is left over is nothing, or it is the fault.
  obtain ⟨front, units, rest, split, splits, stuck⟩ := exists_splits bytes
  have decoded := decodeText_of_splits splits stuck
  rw [← split] at decoded
  constructor
  · intro text
    constructor
    · intro answer
      rw [decoded] at answer
      by_cases ended : rest = []
      · rw [if_pos ended] at answer
        cases answer
        exact ⟨units, by rwa [split, ended, List.append_nil], rfl⟩
      · rw [if_neg ended] at answer
        cases answer
    · rintro ⟨others, whole, rfl⟩
      have all : decodeText (bytes ++ []) = _ := decodeText_of_splits whole rfl
      rwa [List.append_nil, if_pos rfl] at all
  · intro cause
    constructor
    · intro answer
      rw [decoded] at answer
      by_cases ended : rest = []
      · rw [if_pos ended] at answer
        cases answer
      · rw [if_neg ended] at answer
        cases answer
        exact ⟨front, units, rest, split, splits, ended, unit?_eq_none_iff.mp stuck, rfl⟩
    · rintro ⟨before, others, last, rfl, begins, more, unspelled, rfl⟩
      rw [decodeText_of_splits begins (unit?_eq_none_iff.mpr unspelled), if_neg more]

end Reader

namespace ModifiedUtf8

theorem Splits.append {bytes more : List UInt8} {units others : List Nat} (splits : Splits bytes units)
    (later : Splits more others) : Splits (bytes ++ more) (units ++ others) := by
  induction splits with
  | done => exact later
  | next spells _ ih =>
    rw [List.append_assoc]
    exact .next spells ih

theorem units_lt {c : Char} {unit : Nat} (present : unit ∈ units c) : unit < 0x10000 := by
  have range := toNat_lt_or_ge c
  unfold units at present
  split at present
  · simp only [List.mem_singleton] at present
    omega
  · simp only [List.mem_cons, List.not_mem_nil, or_false] at present
    omega

theorem splits_encodeUnit {unit : Nat} (small : unit < 0x10000) : Splits (encodeUnit unit) [unit] := by
  have taken := unit?_encodeUnit small []
  obtain ⟨front, spells, same⟩ := spells_of_unit? taken
  rw [List.append_nil, List.append_nil] at same
  rw [same, ← List.append_nil front]
  exact .next spells .done

theorem splits_encodeUnits {units : List Nat} (small : ∀ unit ∈ units, unit < 0x10000) :
    Splits (units.flatMap encodeUnit) units := by
  induction units with
  | nil => exact .done
  | cons unit rest ih =>
    have here := splits_encodeUnit (small unit (List.mem_cons_self ..))
    exact here.append (ih fun other later => small other (List.mem_cons_of_mem _ later))

theorem splits_encodeChar (c : Char) : Splits (encodeChars [c]) (units c) := by
  have whole := splits_encodeUnits fun unit present => units_lt (c := c) present
  simpa [encodeChars] using whole

theorem length_encodeUnit (unit : Nat) : (encodeUnit unit).length =
    if unit = 0 then 2 else if unit ≤ 0x7F then 1 else if unit ≤ 0x7FF then 2 else 3 := by
  unfold encodeUnit
  grind

theorem length_encodeChar (c : Char) : (encodeChars [c]).length =
    if c.toNat = 0 then 2 else if c.toNat ≤ 0x7F then 1 else if c.toNat ≤ 0x7FF then 2
    else if c.toNat ≤ 0xFFFF then 3 else 6 := by
  by_cases basic : c.toNat < 0x10000
  · rw [encodeChars_basic basic, length_encodeUnit]
    grind
  · rw [encodeChars_supplementary basic, List.length_append, length_encodeUnit, length_encodeUnit]
    grind

end ModifiedUtf8

namespace Reader

theorem last_of_text {cursor next : Cursor} {content : String} (ran : text cursor = .ok content next) :
    next.last = none := by
  obtain ⟨length, middle, _, ran⟩ := steps_of_bind_ok ran
  obtain ⟨bytes, after, taken, ran⟩ := steps_of_bind_ok ran
  have same : after = next := by
    cases decoded : decodeText bytes with
    | error cause => rw [decoded] at ran; cases ran
    | ok other => rw [decoded] at ran; cases ran; rfl
  simp only [take] at taken
  split at taken
  · cases taken
    rw [← same]
  · cases taken

theorem text_of_encode (content : String) :
    encode content = content.toList.flatMap (fun c => encodeChars [c]) ∧
    (∀ c, Splits (encodeChars [c]) (units c) ∧ (encodeChars [c]).length =
      if c.toNat = 0 then 2 else if c.toNat ≤ 0x7F then 1 else if c.toNat ≤ 0x7FF then 2
      else if c.toNat ≤ 0xFFFF then 3 else 6) ∧
    decodeText (encode content) = .ok content ∧
    ((encode content).length ≤ 65535 → ∀ position rest last,
      text ⟨position, bigEndianBytes 2 (encode content).length ++ encode content ++ rest, last⟩ =
        .ok content ⟨position + 2 + (encode content).length, rest, none⟩) := by
  refine ⟨?_, fun c => ⟨splits_encodeChar c, length_encodeChar c⟩, ?_, ?_⟩
  · simp [encode, encodeChars, List.flatMap_assoc]
  · rw [decodeText, decode_encode]
    rfl
  · intro short position rest last
    have reads : Reads text _ content := .text (by omega)
    obtain ⟨final, ran⟩ := reads position rest last
    have closed : final = none := last_of_text ran
    rw [ran, closed, List.length_append, length_bigEndianBytes, Nat.add_assoc]

theorem text_of_encode_mixed :
    (encode "\x00aĄऄ𐀀").length ≤ 65535 ∧
    text ⟨7, [0, 14, 0xC0, 0x80, 0x61, 0xC4, 0x84, 0xE0, 0xA4, 0x84, 0xED, 0xA0, 0x80, 0xED, 0xB0, 0x80, 0xFF], none⟩ =
      .ok "\x00aĄऄ𐀀" ⟨23, [0xFF], none⟩ := by
  have short : (encode "\x00aĄऄ𐀀").length ≤ 65535 := by decide
  exact ⟨short, (text_of_encode "\x00aĄऄ𐀀").2.2.2 short 7 [0xFF] none⟩

end Reader

end PhaseCheck
