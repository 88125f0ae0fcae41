import Mathlib.Data.List.Induction
import PhaseCheck.Code.Calls
import PhaseCheck.Proofs.Code.Encoding
import PhaseCheck.Proofs.Code.Ending

set_option autoImplicit false

namespace PhaseCheck

namespace Mnemonic

def calls : List Mnemonic := [.invokevirtual, .invokespecial, .invokestatic, .invokeinterface]

theorem isCall_iff (opcode : UInt8) :
    CallSite.isCall opcode = true ↔ ∃ mnemonic ∈ calls, opcode = mnemonic.opcode := by
  have every : ∀ number < 256, CallSite.isCall number.toUInt8 = true ↔
      ∃ mnemonic ∈ calls, number.toUInt8 = mnemonic.opcode := by decide +kernel
  have same : opcode.toNat.toUInt8 = opcode := UInt8.ofNat_toNat
  simpa only [same] using every opcode.toNat opcode.toNat_lt

theorem shape_of_call : ∀ mnemonic : Mnemonic, CallSite.isCall mnemonic.opcode = true →
    mnemonic.shape = .plain 2 ∨ mnemonic.shape = .plain 4 :=
  forall_of_ofNat (by decide +kernel)

end Mnemonic

theorem Encoding.operands_of_call {offset : Nat} (encoding : Encoding offset)
    (call : CallSite.isCall encoding.opcode = true) : 2 ≤ encoding.operands.length := by
  cases encoding with
  | plain mnemonic operands sized =>
    change 2 ≤ operands.length
    rcases Mnemonic.shape_of_call mnemonic call with two | four
    · rw [two] at sized
      injection sized with length
      omega
    · rw [four] at sized
      injection sized with length
      omega
  | branch mnemonic distance short => exact absurd (Mnemonic.shape_of_call mnemonic call) (by simp [short])
  | farBranch mnemonic distance far => exact absurd (Mnemonic.shape_of_call mnemonic call) (by simp [far])
  | tableSwitch => exact absurd (Mnemonic.shape_of_call .tableswitch call) (by decide)
  | lookupSwitch => exact absurd (Mnemonic.shape_of_call .lookupswitch call) (by decide)
  | wide => exact absurd (Mnemonic.shape_of_call .wide call) (by decide)

namespace Instruction

variable {bytecode : List UInt8} {offset : Nat} {instruction : Instruction}

theorem exists_encoding (decoded : decode bytecode offset = .ok instruction) :
    ∃ (encoding : Encoding offset) (rest : List UInt8), encoding.opcode = instruction.opcode ∧
      bytecode.drop offset = instruction.opcode :: (encoding.operands ++ rest) := by
  unfold decode at decoded
  split at decoded
  next => cases decoded
  next => cases decoded
  next opcode flow final ran =>
    obtain ⟨targets, _, decoded⟩ := values_of_bind_ok decoded
    cases decoded
    obtain ⟨encoding, rfl, rfl, passes⟩ := Flow.encoding_of_read rfl ran
    exact ⟨encoding, final.rest, rfl, passes.rest_eq⟩

theorem opcode_of_decode (decoded : decode bytecode offset = .ok instruction) :
    bytecode[offset]? = some instruction.opcode := by
  obtain ⟨encoding, rest, _, written⟩ := exists_encoding decoded
  rw [← List.head?_drop, written]
  rfl

theorem bytes_of_call (decoded : decode bytecode offset = .ok instruction)
    (call : CallSite.isCall instruction.opcode = true) :
    ∃ high low rest, bytecode.drop (offset + 1) = high :: low :: rest := by
  obtain ⟨encoding, rest, opcode, written⟩ := exists_encoding decoded
  have long : 2 ≤ encoding.operands.length := encoding.operands_of_call (by rw [opcode]; exact call)
  have behind : bytecode.drop (offset + 1) = encoding.operands ++ rest := by
    rw [← List.tail_drop, written]
    rfl
  match operands : encoding.operands with
  | [] => simp [operands] at long
  | [_] => simp [operands] at long
  | high :: low :: more => exact ⟨high, low, more ++ rest, by rw [behind, operands]; rfl⟩

end Instruction

namespace CallSite

variable {bytecode : List UInt8} {instruction : Instruction}

theorem operand_of_drop {offset : Nat} {high low : UInt8} {rest : List UInt8}
    (written : bytecode.drop (offset + 1) = high :: low :: rest) :
    operand bytecode offset = .ok (bigEndian [high, low]).toUInt16 := by
  rw [operand, Cursor.placed, written]
  rfl

theorem toNat_operand (high low : UInt8) : (bigEndian [high, low]).toUInt16.toNat = high.toNat * 256 + low.toNat := by
  have small : bigEndian [high, low] < 65536 := by
    have highSmall := high.toNat_lt
    have lowSmall := low.toNat_lt
    simp only [bigEndian, List.foldl_cons, List.foldl_nil]
    omega
  rw [toNat_toUInt16_of_lt small]
  simp [bigEndian]

def ofInstruction? (bytecode : List UInt8) (instruction : Instruction) : Option CallSite :=
  if isCall instruction.opcode then
    (operand bytecode instruction.offset).toOption.map fun method => ⟨instruction.offset, method⟩
  else
    none

theorem ofInstruction?_of_call (decoded : Instruction.decode bytecode instruction.offset = .ok instruction)
    (call : isCall instruction.opcode = true) :
    ∃ high low, bytecode[instruction.offset + 1]? = some high ∧ bytecode[instruction.offset + 2]? = some low ∧
      ofInstruction? bytecode instruction = some ⟨instruction.offset, (bigEndian [high, low]).toUInt16⟩ := by
  obtain ⟨high, low, rest, written⟩ := Instruction.bytes_of_call decoded call
  refine ⟨high, low, ?_, ?_, ?_⟩
  · rw [← List.head?_drop, written]
    rfl
  · have second : bytecode[instruction.offset + 2]? = (bytecode.drop (instruction.offset + 1))[1]? := by
      rw [List.getElem?_drop]
    rw [second, written]
    rfl
  · rw [ofInstruction?, if_pos call, operand_of_drop written]
    rfl

theorem call_of_ofInstruction? {site : CallSite} (made : ofInstruction? bytecode instruction = some site) :
    isCall instruction.opcode = true ∧ site.offset = instruction.offset := by
  unfold ofInstruction? at made
  split at made
  next call =>
    obtain ⟨method, _, rfl⟩ := Option.map_eq_some_iff.mp made
    exact ⟨call, rfl⟩
  next => cases made

theorem offsets_sublist (bytecode : List UInt8) (visited : List Instruction) :
    ((visited.filterMap (ofInstruction? bytecode)).map CallSite.offset).Sublist (visited.map Instruction.offset) := by
  induction visited with
  | nil => exact .slnil
  | cons instruction rest ih =>
    cases made : ofInstruction? bytecode instruction with
    | none =>
      rw [List.filterMap_cons_none made]
      exact ih.cons _
    | some site =>
      rw [List.filterMap_cons_some made, List.map_cons, (call_of_ofInstruction? made).2]
      exact ih.cons_cons _

theorem collect_eq (decoded : Instruction.decode bytecode instruction.offset = .ok instruction)
    (sites : List CallSite) :
    collect bytecode instruction sites = .ok () ((ofInstruction? bytecode instruction).toList ++ sites) := by
  unfold collect ofInstruction?
  by_cases call : isCall instruction.opcode = true
  next =>
    obtain ⟨high, low, rest, written⟩ := Instruction.bytes_of_call decoded call
    simp only [call, if_true, operand_of_drop written]
    rfl
  next =>
    simp only [call]
    rfl

theorem forM_collect {visited : List Instruction}
    (decodes : ∀ instruction ∈ visited, Instruction.decode bytecode instruction.offset = .ok instruction)
    (sites : List CallSite) :
    visited.forM (collect bytecode) sites =
      .ok () ((visited.filterMap (ofInstruction? bytecode)).reverse ++ sites) := by
  induction visited generalizing sites with
  | nil => rfl
  | cons instruction rest ih =>
    obtain ⟨first, others⟩ := List.forall_mem_cons.mp decodes
    rw [List.forM, bind_of_ok (collect_eq first sites), ih others]
    cases made : ofInstruction? bytecode instruction with
    | none => rw [List.filterMap_cons_none made]; rfl
    | some site => rw [List.filterMap_cons_some made]; simp

theorem mem_offsets_iff {visited : List Instruction}
    (decodes : ∀ instruction ∈ visited, Instruction.decode bytecode instruction.offset = .ok instruction)
    {offset : Nat} :
    offset ∈ (visited.filterMap (ofInstruction? bytecode)).map CallSite.offset ↔
      offset ∈ visited.map Instruction.offset ∧
        ∃ mnemonic ∈ Mnemonic.calls, bytecode[offset]? = some mnemonic.opcode := by
  constructor
  · intro present
    obtain ⟨site, listed, rfl⟩ := List.mem_map.mp present
    obtain ⟨instruction, within, made⟩ := List.mem_filterMap.mp listed
    obtain ⟨calls, same⟩ := call_of_ofInstruction? made
    obtain ⟨mnemonic, call, opcode⟩ := (Mnemonic.isCall_iff _).mp calls
    rw [same]
    refine ⟨List.mem_map_of_mem within, mnemonic, call, ?_⟩
    rw [Instruction.opcode_of_decode (decodes instruction within), opcode]
  · rintro ⟨present, mnemonic, call, opcode⟩
    obtain ⟨instruction, within, rfl⟩ := List.mem_map.mp present
    have decoded := decodes instruction within
    rw [Instruction.opcode_of_decode decoded, Option.some.injEq] at opcode
    obtain ⟨high, low, _, _, made⟩ :=
      ofInstruction?_of_call decoded ((Mnemonic.isCall_iff _).mpr ⟨mnemonic, call, opcode⟩)
    exact List.mem_map.mpr ⟨_, List.mem_filterMap.mpr ⟨instruction, within, made⟩, rfl⟩

theorem mergeSort_ascending {sites : List CallSite} (distinct : (sites.map CallSite.offset).Nodup) :
    ((sites.mergeSort fun first second => first.offset ≤ second.offset).map CallSite.offset).Pairwise (· < ·) := by
  have sorted : (sites.mergeSort fun first second => first.offset ≤ second.offset).Pairwise
      fun first second => decide (first.offset ≤ second.offset) = true := by
    apply List.pairwise_mergeSort
    · intro first second third
      simp only [decide_eq_true_eq]
      exact Nat.le_trans
    · intro first second
      simpa using Nat.le_total first.offset second.offset
  have apart := ((List.mergeSort_perm sites fun first second => first.offset ≤ second.offset).map
    CallSite.offset).nodup_iff.mpr distinct
  rw [List.pairwise_map]
  apply (sorted.and (List.pairwise_map.mp apart)).imp
  rintro first second ⟨le, ne⟩
  exact Nat.lt_of_le_of_ne (of_decide_eq_true le) ne

end CallSite

/-- What is left of some items if all but the first copy of each is removed. -/
structure KeepsFirst {α : Type} [BEq α] (items kept : List α) : Prop where
  same : ∀ item, item ∈ kept ↔ item ∈ items
  ordered : kept.Pairwise fun item later => items.idxOf item < items.idxOf later

theorem eraseDups_keepsFirst {α : Type} [BEq α] [LawfulBEq α] (items : List α) : KeepsFirst items items.eraseDups := by
  refine ⟨fun item => List.mem_eraseDups, ?_⟩
  induction items using List.reverseRecOn with
  | nil => simp
  | append_singleton front last ih =>
    -- One more item at the end does not change where those before it stand.
    have place {item : α} (present : item ∈ front.eraseDups) : (front ++ [last]).idxOf item = front.idxOf item := by
      rw [List.idxOf_append, if_pos (List.mem_eraseDups.mp present)]
    have before : front.eraseDups.Pairwise fun item later =>
        (front ++ [last]).idxOf item < (front ++ [last]).idxOf later := by
      apply ih.imp_of_mem
      intro item later present presentLater earlier
      rwa [place present, place presentLater]
    rw [List.eraseDups_append]
    by_cases old : last ∈ front
    next =>
      have nothing : [last].removeAll front = [] := by simp [List.removeAll, old]
      rw [nothing, List.eraseDups_nil, List.append_nil]
      exact before
    next =>
      have kept : [last].removeAll front = [last] := by simp [List.removeAll, old]
      rw [kept, List.eraseDups_cons, List.filter_nil, List.eraseDups_nil, List.pairwise_append]
      refine ⟨before, List.pairwise_singleton .., ?_⟩
      intro item present later isLast
      obtain rfl := List.mem_singleton.mp isLast
      rw [place present, List.idxOf_append, if_neg old]
      have inside := List.idxOf_lt_length_of_mem (List.mem_eraseDups.mp present)
      omega

/-- What the methods of some calls come to: all of them, or the error about the first that cannot be found. -/
inductive Pool.Resolves (pool : Pool) : List CallSite → Except FormatError (List MethodRef) → Prop where
  | found {sites : List CallSite} {methods kept : List MethodRef}
      (each : sites.map (fun site => pool.methodRef site.method) = methods.map .ok) (firsts : KeepsFirst methods kept) :
      Resolves pool sites (.ok kept)
  | missing {before after : List CallSite} {site : CallSite} {cause : FormatError}
      (earlier : ∀ other ∈ before, ∃ method, pool.methodRef other.method = .ok method)
      (failed : pool.methodRef site.method = .error cause) : Resolves pool (before ++ site :: after) (.error cause)

namespace Scan

variable {bytecode : List UInt8} {entries starts : List Nat}

theorem answer_of_blockStarts {answer : Except FormatError (List Nat)} (scanned : blockStarts bytecode entries = answer) :
    answerOf (run bytecode entries (fun _ => pure ()) ()) = answer := by
  unfold blockStarts at scanned
  subst scanned
  cases run bytecode entries (fun _ => pure ()) () <;> rfl

end Scan

namespace Body

variable {body : Body}

def CallsAt (body : Body) (offset : Nat) : Prop :=
  Reachable body.bytecode (0 :: body.handlers.map (·.target.toNat)) offset ∧
    ∃ mnemonic ∈ Mnemonic.calls, body.bytecode[offset]? = some mnemonic.opcode

theorem callSites_of_error {cause : FormatError} (failed : body.blockStarts = .error cause) :
    body.callSites = .error cause := by
  obtain ⟨visited, outcome, ends⟩ := Scan.exists_ends (Scan.ofEntries body.entries, none)
    (Scan.Explores.ofEntries : Scan.Explores body.bytecode body.entries _ none)
  have same : outcome.map Scan.starts = .error cause := by
    rw [← ends.answer_run (fun _ _ => ⟨(), rfl⟩) ()]
    exact Scan.answer_of_blockStarts failed
  cases outcome with
  | ok final => cases same
  | error other =>
    cases same
    have collected := CallSite.forM_collect ends.decodes []
    rw [callSites, ends.run_eq (fun _ _ => rfl), bind_of_ok collected]
    rfl

theorem callSites_of_ok {found : List Nat} (scanned : body.blockStarts = .ok found) :
    ∃ sites, body.callSites = .ok sites ∧ (sites.map CallSite.offset).Pairwise (· < ·) ∧
      (∀ offset, offset ∈ sites.map CallSite.offset ↔ body.CallsAt offset) ∧
      ∀ site ∈ sites, ∃ high low, body.bytecode[site.offset + 1]? = some high ∧
        body.bytecode[site.offset + 2]? = some low ∧ site.method.toNat = high.toNat * 256 + low.toNat := by
  obtain ⟨_, ran⟩ := ok_of_answer (Scan.answer_of_blockStarts scanned)
  obtain ⟨visited, final, ends, _⟩ := Scan.exists_ends_of_run ran
  have decodes := ends.decodes
  have collected := CallSite.forM_collect decodes []
  rw [List.append_nil] at collected
  -- The calls are found in the order of the walk, the last one first.
  generalize found_eq : (visited.filterMap (CallSite.ofInstruction? body.bytecode)).reverse = found at collected
  have listed : body.callSites = .ok (found.mergeSort fun first second => first.offset ≤ second.offset) := by
    rw [callSites, ends.run_eq (fun _ _ => rfl), bind_of_ok collected]
    rfl
  have sorted := List.mergeSort_perm found fun first second => first.offset ≤ second.offset
  refine ⟨_, listed, ?_, ?_, ?_⟩
  · apply CallSite.mergeSort_ascending
    rw [← found_eq, List.map_reverse, List.nodup_reverse]
    exact ends.distinct.sublist (CallSite.offsets_sublist body.bytecode visited)
  · intro offset
    rw [(sorted.map _).mem_iff, ← found_eq, List.map_reverse, List.mem_reverse, CallSite.mem_offsets_iff decodes,
      ends.mem_visited_iff]
    rfl
  · intro site present
    rw [sorted.mem_iff, ← found_eq, List.mem_reverse] at present
    obtain ⟨instruction, within, made⟩ := List.mem_filterMap.mp present
    obtain ⟨high, low, first, second, same⟩ :=
      CallSite.ofInstruction?_of_call (decodes instruction within) (CallSite.call_of_ofInstruction? made).1
    rw [made] at same
    cases same
    exact ⟨high, low, first, second, CallSite.toNat_operand high low⟩

theorem callSites_of_two {starts : List Nat} {first second : CallSite} (before : first.offset < second.offset)
    (ran : Scan.run body.bytecode body.entries (CallSite.collect body.bytecode) [] = .ok starts [second, first]) :
    body.callSites = .ok [first, second] := by
  have later : ¬second.offset ≤ first.offset := by omega
  rw [callSites, ran]
  simp [List.mergeSort, List.MergeSort.Internal.splitInTwo, later]

theorem calls_resolves (pool : Pool) {sites : List CallSite} (listed : body.callSites = .ok sites) :
    pool.Resolves sites (body.calls pool) := by
  unfold calls
  rw [listed]
  rcases mapM_ok_or_error (fun site => pool.methodRef site.method) sites with
    ⟨methods, ran, each⟩ | ⟨before, site, after, cause, rfl, earlier, failed, ran⟩
  · simp only [bind, Except.bind, ran]
    exact .found each (eraseDups_keepsFirst methods)
  · simp only [bind, Except.bind, ran]
    exact .missing earlier failed

/-- The methods that a body calls are those of the reachable calls, in the order of the code, each where it comes first.
If the code does not scan, this is why there are none; otherwise the first call decides whose method cannot be found.
Where an instruction decodes, its operand can be read. -/
theorem calls_in_code_order (pool : Pool) (body : Body) :
    (∀ cause, PhaseCheck.blockStarts body.bytecode (0 :: body.handlers.map (·.target.toNat)) = .error cause →
      body.calls pool = .error cause) ∧
    (∀ found, PhaseCheck.blockStarts body.bytecode (0 :: body.handlers.map (·.target.toNat)) = .ok found →
      ∃ sites : List CallSite, (sites.map CallSite.offset).Pairwise (· < ·) ∧
      (∀ offset, offset ∈ sites.map CallSite.offset ↔ body.CallsAt offset) ∧
      (∀ site ∈ sites, ∃ high low, body.bytecode[site.offset + 1]? = some high ∧
        body.bytecode[site.offset + 2]? = some low ∧ site.method.toNat = high.toNat * 256 + low.toNat) ∧
      pool.Resolves sites (body.calls pool)) ∧
    ∀ offset instruction sites, Instruction.decode body.bytecode offset = .ok instruction →
      ∃ after, CallSite.collect body.bytecode instruction sites = .ok () after := by
  refine ⟨?_, ?_, ?_⟩
  · intro cause failed
    rw [calls, callSites_of_error failed]
    rfl
  · intro found scanned
    obtain ⟨sites, listed, ascending, reachable, named⟩ := callSites_of_ok scanned
    exact ⟨sites, ascending, reachable, named, calls_resolves pool listed⟩
  · intro offset instruction sites decoded
    rw [← Instruction.offset_of_decode decoded] at decoded
    exact ⟨_, CallSite.collect_eq decoded sites⟩

-- A `return`, and behind it two calls of one method and another `return` that only an exception leads to.
def handlingBody : Body where
  maxStack := 1
  maxLocals := 1
  bytecode := [0xB1, 0xB8, 0, 6, 0xB6, 0, 6, 0xB1]
  handlers := [⟨0, 1, 1, none⟩]
  lines := []

def handlingPool : Pool :=
  ⟨[.text "A", .class 1, .text "m", .text "()V", .nameAndType 3 4, .method 2 5 false].foldl
    (fun constants constant => constants.push constant.slots constant) (.startingAt 1)⟩

theorem calls_in_code_order_handler :
    (∀ offset, Reachable handlingBody.bytecode [0] offset → offset = 0) ∧
    PhaseCheck.blockStarts handlingBody.bytecode [0, 1] = .ok [0, 1] ∧
    (handlingBody.calls handlingPool).map (List.map fun method => (method.owner.text, method.name.text)) =
      .ok [("A", "m")] ∧
    ∃ sites : List CallSite, 1 ∈ sites.map CallSite.offset ∧ 4 ∈ sites.map CallSite.offset ∧
      handlingPool.Resolves sites (handlingBody.calls handlingPool) := by
  have first : Instruction.decode handlingBody.bytecode 0 = .ok ⟨0, 0xB1, 1, [], false⟩ := rfl
  have second : Instruction.decode handlingBody.bytecode 1 = .ok ⟨1, 0xB8, 3, [], true⟩ := rfl
  have scanned : PhaseCheck.blockStarts handlingBody.bytecode [0, 1] = .ok [0, 1] := by cbv
  obtain ⟨sites, _, reachable, _, resolves⟩ := (calls_in_code_order handlingPool handlingBody).2.1 _ scanned
  have handler : Reachable handlingBody.bytecode [0, 1] 1 := .entry (by decide)
  refine ⟨?_, scanned, ?_, sites, (reachable 1).mpr ⟨handler, .invokestatic, by decide, rfl⟩,
    (reachable 4).mpr ⟨.next handler second rfl, .invokevirtual, by decide, rfl⟩, resolves⟩
  · intro offset direct
    induction direct with
    | entry start => simpa using start
    | branch _ decoded branches ih =>
      subst ih
      cases first.symm.trans decoded
      cases branches
    | next _ decoded falls ih =>
      subst ih
      cases first.symm.trans decoded
      cases falls
  · have ran : Scan.run handlingBody.bytecode handlingBody.entries (CallSite.collect handlingBody.bytecode) [] =
        .ok [0, 1] [⟨4, 6⟩, ⟨1, 6⟩] := by cbv
    rw [calls, callSites_of_two (by decide) ran]
    decide +kernel

end Body

end PhaseCheck
