import PhaseCheck.Proofs.Binary.Passes
import PhaseCheck.Proofs.Code.InstructionSet

set_option autoImplicit false

namespace PhaseCheck

structure Padding (offset : Nat) where
  bytes : List UInt8
  short : bytes.length < 4
  aligned : 4 ∣ offset + 1 + bytes.length

/-- An instruction as it is written at some offset. Bytes that do not bear on the control flow are as they may. -/
inductive Encoding (offset : Nat) where
  | plain (mnemonic : Mnemonic) (operands : List UInt8) (sized : mnemonic.shape = .plain operands.length)
  | branch (mnemonic : Mnemonic) (distance : Int16) (short : mnemonic.shape = .branch)
  | farBranch (mnemonic : Mnemonic) (distance : Int32) (far : mnemonic.shape = .farBranch)
  | tableSwitch (padding : Padding offset) (default low high : Int32) (distances : List Int32) (ordered : low ≤ high)
      (full : (distances.length : Int) = high.toInt - low.toInt + 1)
  | lookupSwitch (padding : Padding offset) (default count : Int32) (pairs : List (Int32 × Int32))
      (full : (pairs.length : Int) = count.toInt)
  | wide (mnemonic : Mnemonic) (operands : List UInt8) (sized : mnemonic.wideOperands = some operands.length)

def intBytes (value : Int32) : List UInt8 :=
  bigEndianBytes 4 value.toUInt32.toNat

namespace Encoding

variable {offset : Nat}

def mnemonic : Encoding offset → Mnemonic
  | .plain mnemonic .. | .branch mnemonic .. | .farBranch mnemonic .. | .wide mnemonic .. => mnemonic
  | .tableSwitch .. => .tableswitch
  | .lookupSwitch .. => .lookupswitch

def opcode : Encoding offset → UInt8
  | .wide .. => Mnemonic.wide.opcode
  | encoding => encoding.mnemonic.opcode

def operands : Encoding offset → List UInt8
  | .plain _ operands _ => operands
  | .branch _ distance _ => bigEndianBytes 2 distance.toUInt16.toNat
  | .farBranch _ distance _ => intBytes distance
  | .tableSwitch padding default low high distances _ _ =>
    padding.bytes ++ (intBytes default ++ (intBytes low ++ (intBytes high ++ distances.flatMap intBytes)))
  | .lookupSwitch padding default count pairs _ =>
    padding.bytes ++ (intBytes default ++ (intBytes count ++
      pairs.flatMap fun pair => intBytes pair.1 ++ intBytes pair.2))
  | .wide mnemonic operands _ => mnemonic.opcode :: operands

def bytes (encoding : Encoding offset) : List UInt8 :=
  encoding.opcode :: encoding.operands

def distances : Encoding offset → List Int
  | .plain .. | .wide .. => []
  | .branch _ distance _ => [distance.toInt]
  | .farBranch _ distance _ => [distance.toInt]
  | .tableSwitch _ default _ _ distances _ _ => default.toInt :: distances.map Int32.toInt
  | .lookupSwitch _ default _ pairs _ => default.toInt :: pairs.map fun pair => pair.2.toInt

def places (encoding : Encoding offset) : List Int :=
  encoding.distances.map fun distance => (offset : Int) + distance

def flow (encoding : Encoding offset) : Flow :=
  ⟨encoding.distances, encoding.mnemonic.fallsThrough⟩

end Encoding

namespace Reader

variable {α β : Type} {position : Nat} {read : Reader α} {bytes more : List UInt8} {value : α}

def ReadsAt (position : Nat) (read : Reader α) (bytes : List UInt8) (value : α) : Prop :=
  ∀ rest last, ∃ final, read ⟨position, bytes ++ rest, last⟩ = .ok value ⟨position + bytes.length, rest, final⟩

theorem Reads.placed (reads : Reads read bytes value) (position : Nat) : ReadsAt position read bytes value :=
  reads position

theorem ReadsAt.andThen {next : α → Reader β} {result : β} (first : ReadsAt position read bytes value)
    (second : ReadsAt (position + bytes.length) (next value) more result) :
    ReadsAt position (read >>= next) (bytes ++ more) result := by
  intro rest last
  obtain ⟨middle, ran⟩ := first (more ++ rest) last
  obtain ⟨final, continued⟩ := second rest middle
  refine ⟨final, ?_⟩
  rw [List.append_assoc, bind_of_ok ran, continued, List.length_append, Nat.add_assoc]

theorem ReadsAt.andReturn (first : ReadsAt position read bytes value) (finish : α → β) :
    ReadsAt position (do return finish (← read)) bytes (finish value) := by
  intro rest last
  obtain ⟨final, ran⟩ := first rest last
  exact ⟨final, bind_of_ok ran⟩

theorem skip_reads (bytes : List UInt8) : Reads (skip bytes.length) bytes () :=
  (Reads.taken bytes).andReturn fun _ => ()

end Reader

namespace Flow

open Reader

variable {offset : Nat}

theorem readOperands_plain (offset count : Nat) (fallsThrough : Bool) :
    readOperands offset (if fallsThrough then .straight count else .stop count) =
      do skip count; return ⟨[], fallsThrough⟩ := by
  cases fallsThrough <;> rfl

theorem plain_reads (operands : List UInt8) (fallsThrough : Bool) :
    Reads (do skip operands.length; return (⟨[], fallsThrough⟩ : Flow)) operands ⟨[], fallsThrough⟩ :=
  (skip_reads operands).andReturn fun _ => (⟨[], fallsThrough⟩ : Flow)

theorem offset32_reads (value : Int32) : Reads offset32 (intBytes value) value.toInt :=
  (Reads.signedInt value).andReturn Int32.toInt

theorem padding_reads (padding : Padding offset) : ReadsAt (offset + 1) skipPadding padding.bytes () := by
  intro rest last
  -- Only one number of bytes below four leads to a multiple of four.
  have count : (4 - (offset + 1) % 4) % 4 = padding.bytes.length := by
    have short := padding.short
    have aligned := padding.aligned
    omega
  obtain ⟨final, ran⟩ := skip_reads padding.bytes (offset + 1) rest last
  refine ⟨final, ?_⟩
  change skip ((4 - (offset + 1) % 4) % 4) _ = _
  rw [count]
  exact ran

theorem table_reads (padding : Padding offset) (default low high : Int32) (distances : List Int32)
    (ordered : low ≤ high) (full : (distances.length : Int) = high.toInt - low.toInt + 1) :
    ReadsAt (offset + 1) (readTable offset)
      (padding.bytes ++ (intBytes default ++ (intBytes low ++ (intBytes high ++ distances.flatMap intBytes))))
      ⟨default.toInt :: distances.map Int32.toInt, false⟩ := by
  refine (padding_reads padding).andThen (Reads.placed ?_ _)
  refine (offset32_reads default).andThen ((offset32_reads low).andThen ((offset32_reads high).andThen ?_))
  rw [Int32.le_iff_toInt_le] at ordered
  rw [if_neg (by omega)]
  have count : (high.toInt - low.toInt + 1).toNat = distances.length := by omega
  rw [count]
  exact (Reads.times fun distance _ => offset32_reads distance).andLast (.done _)

theorem pairs_read (padding : Padding offset) (default count : Int32) (pairs : List (Int32 × Int32))
    (full : (pairs.length : Int) = count.toInt) :
    ReadsAt (offset + 1) (readPairs offset)
      (padding.bytes ++ (intBytes default ++ (intBytes count ++
        pairs.flatMap fun pair => intBytes pair.1 ++ intBytes pair.2)))
      ⟨default.toInt :: pairs.map fun pair => pair.2.toInt, false⟩ := by
  refine (padding_reads padding).andThen (Reads.placed ?_ _)
  refine (offset32_reads default).andThen ((offset32_reads count).andThen ?_)
  have size : count.toInt.toNat = pairs.length := by omega
  rw [if_neg (by omega), size]
  have each : ∀ pair ∈ pairs, Reads (do let _ ← offset32; offset32) (intBytes pair.1 ++ intBytes pair.2) pair.2.toInt :=
    fun pair _ => (offset32_reads pair.1).andThen (offset32_reads pair.2)
  exact (Reads.times each).andLast (.done _)

theorem read_of_narrow {cursor middle : Cursor} {byte : UInt8} {layout : Layout} (first : u8 cursor = .ok byte middle)
    (found : Layout.lookup Layout.table byte = some layout) (narrow : layout ≠ .wide) :
    Flow.read offset cursor = (do return (byte, ← readOperands offset layout)) middle := by
  rw [Flow.read, bind_of_ok first, found]
  cases layout with
  | wide => exact absurd rfl narrow
  | straight | stop | branch | farBranch | tableSwitch | lookupSwitch => rfl

theorem read_narrow (mnemonic : Mnemonic) {layout : Layout} {operands : List UInt8} {flow : Flow}
    (known : mnemonic.layout = layout) (narrow : layout ≠ .wide)
    (reads : ReadsAt (offset + 1) (readOperands offset layout) operands flow) :
    ReadsAt offset (Flow.read offset) (mnemonic.opcode :: operands) (mnemonic.opcode, flow) := by
  have found : Layout.lookup Layout.table mnemonic.opcode = some layout := by rw [Mnemonic.lookup_opcode, known]
  intro rest last
  have first : u8 ⟨offset, mnemonic.opcode :: operands ++ rest, last⟩ =
      .ok mnemonic.opcode ⟨offset + 1, operands ++ rest, some mnemonic.opcode⟩ := rfl
  obtain ⟨final, ran⟩ := (reads.andReturn fun flow => (mnemonic.opcode, flow)) rest (some mnemonic.opcode)
  refine ⟨final, ?_⟩
  rw [read_of_narrow first found narrow, ran, List.length_cons, Nat.add_assoc, Nat.add_comm 1]

theorem read_wide {mnemonic : Mnemonic} {operands : List UInt8} (sized : mnemonic.wideOperands = some operands.length) :
    Reads (Flow.read offset) (Mnemonic.wide.opcode :: mnemonic.opcode :: operands)
      (Mnemonic.wide.opcode, ⟨[], mnemonic.fallsThrough⟩) := by
  refine (Reads.byte Mnemonic.wide.opcode).andThen ?_
  rw [Mnemonic.lookup_opcode]
  refine (Reads.byte mnemonic.opcode).andThen ?_
  rw [Mnemonic.lookup_wide_opcode, Mnemonic.wideLayout?, sized]
  simp only [Option.map_some, readOperands_plain]
  exact (plain_reads operands mnemonic.fallsThrough).andReturn fun flow => (Mnemonic.wide.opcode, flow)

end Flow

namespace Encoding

open Reader PhaseCheck.Flow

variable {offset : Nat}

theorem reads (encoding : Encoding offset) :
    ReadsAt offset (Flow.read offset) encoding.bytes (encoding.opcode, encoding.flow) := by
  cases encoding with
  | plain mnemonic operands sized =>
    have layout : mnemonic.layout =
        if mnemonic.fallsThrough then .straight operands.length else .stop operands.length := by
      rw [Mnemonic.layout, sized]
    refine read_narrow mnemonic layout (by split <;> nofun) ?_
    rw [readOperands_plain]
    exact (plain_reads operands mnemonic.fallsThrough).placed _
  | branch mnemonic distance short =>
    have layout : mnemonic.layout = .branch mnemonic.fallsThrough := by rw [Mnemonic.layout, short]
    have reading := (Reads.signedShort distance).andReturn fun value => (⟨[value.toInt], mnemonic.fallsThrough⟩ : Flow)
    exact read_narrow mnemonic layout nofun (reading.placed _)
  | farBranch mnemonic distance far =>
    have layout : mnemonic.layout = .farBranch mnemonic.fallsThrough := by rw [Mnemonic.layout, far]
    have reading := (offset32_reads distance).andReturn fun value => (⟨[value], mnemonic.fallsThrough⟩ : Flow)
    exact read_narrow mnemonic layout nofun (reading.placed _)
  | tableSwitch padding default low high distances ordered full =>
    exact read_narrow .tableswitch rfl nofun (table_reads padding default low high distances ordered full)
  | lookupSwitch padding default count pairs full =>
    exact read_narrow .lookupswitch rfl nofun (pairs_read padding default count pairs full)
  | wide mnemonic operands sized => exact (read_wide sized).placed offset

end Encoding

namespace Flow

open Reader

variable {offset : Nat} {cursor final : Cursor} {flow : Flow}

theorem offset32_readsOnly : ReadsOnly offset32 intBytes Int32.toInt :=
  ReadsOnly.signedInt.andReturn Int32.toInt

theorem operands_of_plain {count : Nat} {fallsThrough : Bool}
    (ran : readOperands offset (if fallsThrough then .straight count else .stop count) cursor = .ok flow final) :
    ∃ operands, operands.length = count ∧ flow = ⟨[], fallsThrough⟩ ∧ cursor.Passes operands final := by
  rw [readOperands_plain] at ran
  obtain ⟨⟨⟩, middle, skipped, ran⟩ := steps_of_bind_ok ran
  cases ran
  obtain ⟨operands, sized, passes⟩ := passes_of_skip skipped
  exact ⟨operands, sized, rfl, passes⟩

theorem padding_of_skip (placed : cursor.position = offset + 1) (ran : skipPadding cursor = .ok () final) :
    ∃ padding : Padding offset, cursor.Passes padding.bytes final := by
  change skip ((4 - cursor.position % 4) % 4) cursor = .ok () final at ran
  obtain ⟨bytes, sized, passes⟩ := passes_of_skip ran
  exact ⟨⟨bytes, by omega, by omega⟩, passes⟩

theorem encoding_of_table (placed : cursor.position = offset + 1) (ran : readTable offset cursor = .ok flow final) :
    ∃ encoding : Encoding offset, encoding.opcode = Mnemonic.tableswitch.opcode ∧ encoding.flow = flow ∧
      cursor.Passes encoding.operands final := by
  obtain ⟨⟨⟩, _, skipped, ran⟩ := steps_of_bind_ok ran
  obtain ⟨padding, passes⟩ := padding_of_skip placed skipped
  obtain ⟨_, _, first, ran⟩ := steps_of_bind_ok ran
  obtain ⟨default, rfl, passesDefault⟩ := offset32_readsOnly first
  obtain ⟨_, _, second, ran⟩ := steps_of_bind_ok ran
  obtain ⟨low, rfl, passesLow⟩ := offset32_readsOnly second
  obtain ⟨_, _, third, ran⟩ := steps_of_bind_ok ran
  obtain ⟨high, rfl, passesHigh⟩ := offset32_readsOnly third
  split at ran
  next => cases ran
  next ordered =>
    obtain ⟨_, _, others, ran⟩ := steps_of_bind_ok ran
    cases ran
    obtain ⟨distances, full, rfl, passesOthers⟩ := offset32_readsOnly.times others
    refine ⟨.tableSwitch padding default low high distances ?_ (by omega), rfl, rfl, ?_⟩
    · rw [Int32.le_iff_toInt_le]
      omega
    · exact passes.trans (passesDefault.trans (passesLow.trans (passesHigh.trans passesOthers)))

theorem encoding_of_pairs (placed : cursor.position = offset + 1) (ran : readPairs offset cursor = .ok flow final) :
    ∃ encoding : Encoding offset, encoding.opcode = Mnemonic.lookupswitch.opcode ∧ encoding.flow = flow ∧
      cursor.Passes encoding.operands final := by
  obtain ⟨⟨⟩, _, skipped, ran⟩ := steps_of_bind_ok ran
  obtain ⟨padding, passes⟩ := padding_of_skip placed skipped
  obtain ⟨_, _, first, ran⟩ := steps_of_bind_ok ran
  obtain ⟨default, rfl, passesDefault⟩ := offset32_readsOnly first
  obtain ⟨_, _, second, ran⟩ := steps_of_bind_ok ran
  obtain ⟨count, rfl, passesCount⟩ := offset32_readsOnly second
  split at ran
  next => cases ran
  next natural =>
    obtain ⟨_, _, others, ran⟩ := steps_of_bind_ok ran
    cases ran
    obtain ⟨pairs, full, rfl, passesOthers⟩ := (offset32_readsOnly.pair offset32_readsOnly).times others
    refine ⟨.lookupSwitch padding default count pairs (by omega), rfl, rfl, ?_⟩
    exact passes.trans (passesDefault.trans (passesCount.trans passesOthers))

theorem encoding_of_operands {mnemonic : Mnemonic} (narrow : mnemonic.layout ≠ .wide)
    (placed : cursor.position = offset + 1) (ran : readOperands offset mnemonic.layout cursor = .ok flow final) :
    ∃ encoding : Encoding offset, encoding.opcode = mnemonic.opcode ∧ encoding.flow = flow ∧
      cursor.Passes encoding.operands final := by
  unfold Mnemonic.layout at narrow ran
  cases shape : mnemonic.shape with
  | plain count =>
    simp only [shape] at ran
    obtain ⟨operands, rfl, rfl, passes⟩ := operands_of_plain ran
    exact ⟨.plain mnemonic operands shape, rfl, rfl, passes⟩
  | branch =>
    simp only [shape] at ran
    obtain ⟨_, _, read, ran⟩ := steps_of_bind_ok ran
    cases ran
    obtain ⟨distance, rfl, passes⟩ := ReadsOnly.signedShort read
    exact ⟨.branch mnemonic distance shape, rfl, rfl, passes⟩
  | farBranch =>
    simp only [shape] at ran
    obtain ⟨_, _, read, ran⟩ := steps_of_bind_ok ran
    cases ran
    obtain ⟨distance, rfl, passes⟩ := offset32_readsOnly read
    exact ⟨.farBranch mnemonic distance shape, rfl, rfl, passes⟩
  | tableSwitch =>
    simp only [shape] at ran
    obtain rfl := Mnemonic.eq_tableswitch mnemonic shape
    exact encoding_of_table placed ran
  | lookupSwitch =>
    simp only [shape] at ran
    obtain rfl := Mnemonic.eq_lookupswitch mnemonic shape
    exact encoding_of_pairs placed ran
  | widened => exact absurd (by simp only [shape]) narrow

theorem encoding_of_wide {mnemonic : Mnemonic} {layout : Layout} (known : mnemonic.wideLayout? = some layout)
    (ran : readOperands offset layout cursor = .ok flow final) :
    ∃ operands, ∃ sized : mnemonic.wideOperands = some operands.length,
      (Encoding.wide mnemonic operands sized : Encoding offset).flow = flow ∧ cursor.Passes operands final := by
  obtain ⟨count, widened, rfl⟩ := Option.map_eq_some_iff.mp known
  obtain ⟨operands, rfl, rfl, passes⟩ := operands_of_plain ran
  exact ⟨operands, widened, rfl, passes⟩

theorem encoding_of_read {opcode : UInt8} (placed : cursor.position = offset)
    (ran : Flow.read offset cursor = .ok (opcode, flow) final) :
    ∃ encoding : Encoding offset, encoding.opcode = opcode ∧ encoding.flow = flow ∧
      cursor.Passes encoding.bytes final := by
  obtain ⟨_, middle, first, rest⟩ := steps_of_bind_ok ran
  obtain ⟨byte, (rfl : byte = _), passes⟩ := ReadsOnly.byte first
  have behind : middle.position = offset + 1 := by rw [passes.position_eq, placed]; rfl
  cases found : Layout.lookup Layout.table byte with
  | none =>
    simp only [found] at rest
    cases rest
  | some layout =>
    obtain ⟨mnemonic, rfl, rfl⟩ := Mnemonic.exists_of_lookup found
    by_cases wide : mnemonic.layout = .wide
    next =>
      -- Another opcode follows, and it is looked up in a table of its own.
      obtain rfl := Mnemonic.eq_wide mnemonic wide
      simp only [found, wide] at rest
      obtain ⟨_, later, second, rest⟩ := steps_of_bind_ok rest
      obtain ⟨widened, (rfl : widened = _), passesWidened⟩ := ReadsOnly.byte second
      cases foundWide : Layout.lookup Layout.wideTable widened with
      | none =>
        simp only [foundWide] at rest
        cases rest
      | some layout =>
        simp only [foundWide] at rest
        obtain ⟨_, _, read, rest⟩ := steps_of_bind_ok rest
        cases rest
        obtain ⟨under, rfl, known⟩ := Mnemonic.exists_of_lookup_wide foundWide
        obtain ⟨operands, sized, rfl, passesOperands⟩ := encoding_of_wide known read
        exact ⟨.wide under operands sized, rfl, rfl, passes.trans (passesWidened.trans passesOperands)⟩
    next =>
      rw [read_of_narrow first found wide] at ran
      obtain ⟨_, _, read, ran⟩ := steps_of_bind_ok ran
      cases ran
      obtain ⟨encoding, sameOpcode, rfl, passesOperands⟩ := encoding_of_operands wide behind read
      refine ⟨encoding, sameOpcode, rfl, ?_⟩
      rw [Encoding.bytes, sameOpcode]
      exact passes.trans passesOperands

end Flow

namespace Instruction

variable {length offset : Nat}

theorem target_eq_ok_iff {distance : Int} {target : Nat} : Instruction.target length offset distance = .ok target ↔
    (0 ≤ (offset : Int) + distance ∧ (offset : Int) + distance < length) ∧
      ((offset : Int) + distance).toNat = target := by
  by_cases outside : (offset : Int) + distance < 0 ∨ (length : Int) ≤ offset + distance
  next =>
    rw [Instruction.target, if_pos outside]
    refine ⟨nofun, fun inside => ?_⟩
    omega
  next =>
    rw [Instruction.target, if_neg outside, Except.ok.injEq, iff_and_self]
    omega

theorem mapM_target_eq_ok_iff {distances : List Int} {targets : List Nat} :
    distances.mapM (target length offset) = .ok targets ↔
      (∀ place ∈ distances.map fun distance => (offset : Int) + distance, 0 ≤ place ∧ place < length) ∧
        (distances.map fun distance => (offset : Int) + distance).map Int.toNat = targets := by
  induction distances generalizing targets with
  | nil => simp [pure, Except.pure]
  | cons distance rest ih =>
    rw [List.mapM_cons]
    constructor
    · intro ran
      obtain ⟨first, head, ran⟩ := values_of_bind_ok ran
      obtain ⟨others, tail, ran⟩ := values_of_bind_ok ran
      cases ran
      obtain ⟨inside, rfl⟩ := target_eq_ok_iff.mp head
      obtain ⟨allInside, rfl⟩ := ih.mp tail
      exact ⟨List.forall_mem_cons.mpr ⟨inside, allInside⟩, rfl⟩
    · rintro ⟨inside, rfl⟩
      obtain ⟨first, others⟩ := List.forall_mem_cons.mp inside
      rw [target_eq_ok_iff.mpr ⟨first, rfl⟩, ih.mpr ⟨others, rfl⟩]
      rfl

/-- Decoding recognises exactly the instructions that are written at an offset and branch within the body. -/
theorem decode_eq_ok_iff (bytecode : List UInt8) (offset : Nat) (instruction : Instruction) :
    decode bytecode offset = .ok instruction ↔ ∃ encoding : Encoding offset,
      encoding.bytes <+: bytecode.drop offset ∧
      (∀ place ∈ encoding.places, 0 ≤ place ∧ place < bytecode.length) ∧
      instruction = ⟨offset, encoding.opcode, encoding.bytes.length, encoding.places.map Int.toNat,
        encoding.mnemonic.fallsThrough⟩ := by
  constructor
  · intro decoded
    unfold decode at decoded
    split at decoded
    next => cases decoded
    next => cases decoded
    next opcode flow final ran =>
      obtain ⟨targets, ranges, decoded⟩ := values_of_bind_ok decoded
      cases decoded
      obtain ⟨encoding, rfl, rfl, passes⟩ := Flow.encoding_of_read rfl ran
      obtain ⟨inside, rfl⟩ := mapM_target_eq_ok_iff.mp ranges
      have width : final.position - offset = encoding.bytes.length := by
        rw [passes.position_eq]
        exact Nat.add_sub_cancel_left ..
      exact ⟨encoding, ⟨final.rest, passes.rest_eq.symm⟩, inside, by rw [width]; rfl⟩
  · rintro ⟨encoding, ⟨rest, written⟩, inside, rfl⟩
    obtain ⟨final, ran⟩ := encoding.reads rest none
    have placed : Cursor.placed bytecode offset = ⟨offset, encoding.bytes ++ rest, none⟩ := by
      rw [Cursor.placed, written]
    rw [decode, placed, ran]
    simp only [Encoding.flow, mapM_target_eq_ok_iff.mpr ⟨inside, rfl⟩, Nat.add_sub_cancel_left]
    rfl

end Instruction

end PhaseCheck
