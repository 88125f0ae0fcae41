import PhaseCheck.Proofs.Code.Reachable

set_option autoImplicit false

namespace PhaseCheck

namespace Scan

section

variable {σ α : Type} (visit : Instruction → EStateM FormatError σ Unit)

def withRecord (visited : List Instruction) :
    EStateM.Result FormatError σ α → EStateM.Result FormatError (List Instruction × σ) α
  | .ok value state => .ok value (visited, state)
  | .error cause state => .error cause (visited, state)

def recording (instruction : Instruction) : EStateM FormatError (List Instruction × σ) Unit := fun (visited, state) =>
  withRecord (visited ++ [instruction]) (visit instruction state)

theorem forM_recording (instructions visited : List Instruction) (state : σ) :
    ∃ shown, shown <+: instructions ∧
      instructions.forM (recording visit) (visited, state) =
        withRecord (visited ++ shown) (instructions.forM visit state) := by
  induction instructions generalizing visited state with
  | nil => exact ⟨[], List.prefix_refl _, by rw [List.append_nil]; rfl⟩
  | cons instruction rest ih =>
    cases ran : visit instruction state with
    | error cause final =>
      refine ⟨[instruction], ⟨rest, rfl⟩, ?_⟩
      have recorded :
          recording visit instruction (visited, state) = .error cause (visited ++ [instruction], final) := by
        rw [recording, ran]
        rfl
      exact (bind_of_error recorded).trans (by rw [List.forM, bind_of_error ran]; rfl)
    | ok value middle =>
      obtain ⟨shown, first, later⟩ := ih (visited ++ [instruction]) middle
      refine ⟨instruction :: shown, (List.prefix_cons_inj instruction).mpr first, ?_⟩
      have recorded : recording visit instruction (visited, state) = .ok value (visited ++ [instruction], middle) := by
        rw [recording, ran]
        rfl
      refine (bind_of_ok recorded).trans (later.trans ?_)
      rw [List.forM, bind_of_ok ran, List.append_assoc, List.singleton_append]

end

section

variable {σ : Type} {bytecode : List UInt8} {entries : List Nat} {visited : List Instruction}
  {outcome : Except FormatError Scan}

theorem Ends.run_recording (ends : Ends bytecode entries (.ofEntries entries, none) visited outcome)
    (visit : Instruction → EStateM FormatError σ Unit) (before : σ) :
    ∃ shown, shown <+: visited ∧
      run bytecode entries (recording visit) ([], before) = withRecord shown (run bytecode entries visit before) := by
  obtain ⟨shown, first, recorded⟩ := forM_recording visit visited [] before
  refine ⟨shown, first, ?_⟩
  rw [ends.run_eq (fun _ _ => rfl), ends.run_eq (fun _ _ => rfl)]
  cases ran : visited.forM visit before with
  | error cause after =>
    rw [ran] at recorded
    rw [bind_of_error ran, bind_of_error recorded]
    rfl
  | ok value after =>
    rw [ran] at recorded
    rw [bind_of_ok ran, bind_of_ok recorded]
    cases outcome <;> rfl

theorem Ends.answer_run (ends : Ends bytecode entries (.ofEntries entries, none) visited outcome)
    {visit : Instruction → EStateM FormatError σ Unit}
    (never : ∀ instruction state, ∃ after, visit instruction state = .ok () after) (before : σ) :
    answerOf (run bytecode entries visit before) = outcome.map Scan.starts := by
  obtain ⟨after, ran⟩ := forM_ok (fun instruction (_ : instruction ∈ visited) => never instruction) before
  rw [ends.run_eq (fun _ _ => rfl), bind_of_ok ran]
  cases outcome <;> rfl

theorem Concludes.decodes {final : Scan} (concludes : Concludes bytecode entries (.ok final)) {offset : Nat}
    (reachable : Reachable bytecode entries offset) :
    ∃ instruction, Instruction.decode bytecode offset = .ok instruction := by
  obtain ⟨explores, nothing⟩ := concludes
  obtain ⟨instruction, decoded, _⟩ := explores.closed offset (explores.mem_walked_of_reachable nothing reachable)
  exact ⟨instruction, decoded⟩

end

/-- A scan always ends. Up to its end or its failure it visits different reachable instructions of the body. Unless
the visitor fails, it fails just in case some reachable offset does not decode, and for the reason why that offset does
not. Nothing depends on what stands at other offsets. -/
theorem run_fails_iff {σ : Type} (bytecode : List UInt8) (entries : List Nat)
    (visit : Instruction → EStateM FormatError σ Unit) (before : σ) :
    (WellFounded fun later earlier => ∃ shown, Goes bytecode earlier shown later) ∧
    (∃ visited : List Instruction,
      run bytecode entries (recording visit) ([], before) = withRecord visited (run bytecode entries visit before) ∧
      (visited.map Instruction.offset).Nodup ∧
      ∀ instruction ∈ visited, Reachable bytecode entries instruction.offset ∧ instruction.offset < bytecode.length) ∧
    ((∀ instruction state, ∃ after, visit instruction state = .ok () after) →
      ((∃ cause, answerOf (run bytecode entries visit before) = .error cause) ↔
        ∃ offset cause, Reachable bytecode entries offset ∧ Instruction.decode bytecode offset = .error cause) ∧
      ∀ cause, answerOf (run bytecode entries visit before) = .error cause →
        ∃ offset, Reachable bytecode entries offset ∧ Instruction.decode bytecode offset = .error cause) ∧
    ∀ other, (∀ offset, Reachable bytecode entries offset →
        Instruction.decode other offset = Instruction.decode bytecode offset) →
      run other entries visit = run bytecode entries visit := by
  obtain ⟨visited, outcome, ends⟩ := exists_ends (Scan.ofEntries entries, none)
    (Explores.ofEntries : Explores bytecode entries _ none)
  refine ⟨goes_wellFounded bytecode, ?_, ?_, ?_⟩
  · obtain ⟨shown, first, recorded⟩ := ends.run_recording visit before
    refine ⟨shown, recorded, ends.distinct.sublist (first.sublist.map _), fun instruction within => ?_⟩
    have present := first.subset within
    exact ⟨ends.reachable instruction present, Instruction.lt_length_of_decode (ends.decodes instruction present)⟩
  · intro never
    rw [ends.answer_run never before]
    have concludes := ends.concludes
    cases outcome with
    | error cause =>
      obtain ⟨offset, reachable, refused⟩ := concludes
      refine ⟨⟨fun _ => ⟨offset, cause, reachable, refused⟩, fun _ => ⟨cause, rfl⟩⟩, fun other same => ?_⟩
      cases same
      exact ⟨offset, reachable, refused⟩
    | ok final =>
      refine ⟨⟨?_, ?_⟩, ?_⟩
      · rintro ⟨_, failed⟩
        cases failed
      · rintro ⟨offset, cause, reachable, refused⟩
        obtain ⟨instruction, decoded⟩ := concludes.decodes reachable
        rw [refused] at decoded
        cases decoded
      · intro _ failed
        cases failed
  · intro other alike
    rw [ends.run_eq alike, ends.run_eq (fun _ _ => rfl)]

-- A `goto` over a byte that is never reached, to a `nop` behind which the body ends.
def overrunCode (unreached : UInt8) : List UInt8 := [0xA7, 0, 4, unreached, 0x00]

theorem decode_overrunCode (unreached : UInt8) :
    Instruction.decode (overrunCode unreached) 0 = .ok ⟨0, 0xA7, 3, [4], false⟩ ∧
      Instruction.decode (overrunCode unreached) 4 = .ok ⟨4, 0x00, 1, [], true⟩ ∧
      Instruction.decode (overrunCode unreached) 5 = .error (.codeOverrun 5) :=
  ⟨rfl, rfl, rfl⟩

theorem reachable_overrunCode {offset : Nat} (reachable : Reachable (overrunCode 0xFF) [0] offset) :
    offset = 0 ∨ offset = 4 ∨ offset = 5 := by
  obtain ⟨first, second, third⟩ := decode_overrunCode 0xFF
  induction reachable with
  | entry start => simp_all
  | branch _ decoded branches ih => rcases ih with rfl | rfl | rfl <;> simp_all
  | next _ decoded falls ih => rcases ih with rfl | rfl | rfl <;> simp_all [Instruction.next]

def countVisits (_ : Instruction) : EStateM FormatError Nat Unit := fun count => .ok () (count + 1)

theorem run_fails_iff_overrun :
    (∀ instruction count, ∃ after, countVisits instruction count = .ok () after) ∧
      answerOf (run (overrunCode 0xFF) [0] countVisits 0) = .error (.codeOverrun 5) ∧
      (∃ offset, Reachable (overrunCode 0xFF) [0] offset ∧
        Instruction.decode (overrunCode 0xFF) offset = .error (.codeOverrun 5)) ∧
      run (overrunCode 0xB1) [0] countVisits = run (overrunCode 0xFF) [0] countVisits := by
  have never : ∀ instruction count, ∃ after, countVisits instruction count = .ok () after :=
    fun _ count => ⟨count + 1, rfl⟩
  obtain ⟨first, second, third⟩ := decode_overrunCode 0xFF
  have start : Reachable (overrunCode 0xFF) [0] 0 := .entry (List.mem_singleton_self 0)
  have nop : Reachable (overrunCode 0xFF) [0] 4 := .branch start first (List.mem_singleton_self 4)
  have last : Reachable (overrunCode 0xFF) [0] 5 := .next nop second rfl
  obtain ⟨_, _, fails, alike⟩ := run_fails_iff (overrunCode 0xFF) [0] countVisits 0
  obtain ⟨cause, failed⟩ := (fails never).1.mpr ⟨5, .codeOverrun 5, last, third⟩
  obtain ⟨offset, reachable, refused⟩ := (fails never).2 cause failed
  have same : cause = .codeOverrun 5 := by
    rcases reachable_overrunCode reachable with rfl | rfl | rfl <;> simp_all
  subst same
  refine ⟨never, failed, ⟨offset, reachable, refused⟩, alike _ ?_⟩
  intro other within
  obtain ⟨_, _, _⟩ := decode_overrunCode 0xB1
  rcases reachable_overrunCode within with rfl | rfl | rfl <;> simp_all

end Scan

end PhaseCheck
