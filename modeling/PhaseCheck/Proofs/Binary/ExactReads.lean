import PhaseCheck.Proofs.Binary.PutBack

set_option autoImplicit false

namespace PhaseCheck

namespace Session

structure ReadsExactly (session : Session) (operation : Operation) (width : Nat) : Prop where
  short : session.cursor.remaining < width → ∃ next,
    session.perform operation = .refused (.unexpectedEnd session.cursor.position width) next ∧
      next.cursor.position = session.cursor.position
  enough : width ≤ session.cursor.remaining → ∃ value next,
    session.perform operation = .answered value next ∧
      next.cursor.position = session.cursor.position + width ∧
      operation.Denotes value ((session.bytes.drop session.cursor.position).take width)

theorem Sound.readsExactly {bytes : List UInt8} {start width : Nat} {session : Session} {operation : Operation}
    (sound : session.Sound bytes start) (early : start ≤ bytes.length) (known : operation.width? = some width) :
    session.ReadsExactly operation width := by
  have performed : session.perform operation = .ofRead bytes (operation.read session.cursor) :=
    sound.perform_eq fun late => absurd early (Nat.not_le.mpr late)
  constructor
  · intro short
    rw [performed, Operation.read_of_short known short]
    exact ⟨_, rfl, rfl⟩
  · intro enough
    obtain ⟨value, denotes, ran⟩ := Operation.read_of_enough known enough
    rw [sound.rest_eq] at denotes
    rw [performed, ran, sound.bytes_eq]
    exact ⟨value, _, rfl, rfl, denotes⟩

/-- From the beginning of any bytes, operations can follow each other without end and the position never gets past the
bytes. Numbers and other stretches of known length are read exactly. Putting a byte back takes the position back by one,
and the byte that was read there is read again. -/
theorem opened_reads_exactly (bytes : List UInt8) (operations : List Operation) :
    ∃ session, (opened bytes).after operations = some session ∧ session.bytes = bytes ∧
      session.cursor.position ≤ bytes.length ∧
      session.cursor.remaining = bytes.length - session.cursor.position ∧
      (∀ operation width, operation.width? = some width → session.ReadsExactly operation width) ∧
      ∀ next, session.perform .putBack = .answered () next →
        next.cursor.position + 1 = session.cursor.position ∧
        ∃ byte, (opened bytes).Holds operations byte ∧
          ∀ single, single = .number .u8 ∨ single = .number .i8 →
            ∃ again, next.ReadsByte single byte again ∧ again.cursor.position = session.cursor.position := by
  have placement := Sound.placed bytes 0
  cases reached : (opened bytes).after operations with
  | none => exact absurd (placement.after_breaks_iff.mp reached).1 (Nat.not_lt_zero _)
  | some session =>
    have sound := placement.after reached
    refine ⟨session, rfl, sound.bytes_eq, sound.inside (Nat.zero_le _), sound.remaining_eq,
      fun operation width => sound.readsExactly (Nat.zero_le _), fun next given => ?_⟩
    obtain ⟨byte, held⟩ := (putBack_answered sound).mp ⟨next, given⟩
    obtain ⟨before, place, _⟩ := sound.held byte held
    have back := sound.perform (congrArg Result.next? given)
    rw [sound.putBack_of_some held] at given
    cases given
    have there : session.cursor.position - 1 + 1 = session.cursor.position := by omega
    exact ⟨there, byte, (last_eq_some_iff reached).mp held, fun single kind => ⟨_, back.readsByte rfl kind, there⟩⟩

end Session

end PhaseCheck
