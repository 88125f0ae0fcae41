import PhaseCheck.Proofs.Binary.Sessions

set_option autoImplicit false

namespace PhaseCheck

theorem NumberFormat.eq_of_narrow {format : NumberFormat} (narrow : format.width = 1) :
    format = .u8 ∨ format = .i8 := by
  cases format <;> simp [width] at narrow ⊢

namespace Session

variable {bytes rest : List UInt8} {start : Nat} {session before next : Session} {operation : Operation}
  {operations : List Operation} {byte : UInt8}

def ReadsByte (session : Session) (operation : Operation) (byte : UInt8) (next : Session) : Prop :=
  operation = .number .u8 ∧ session.perform (.number .u8) = .answered byte next ∨
    operation = .number .i8 ∧ session.perform (.number .i8) = .answered byte.toInt8 next

theorem read_of_answered {value : operation.Answer} (given : session.perform operation = .answered value next) :
    ∃ final, operation.read session.cursor = .ok value final ∧ next = ⟨session.bytes, final⟩ := by
  have went : (session.perform operation).next? = some next := by rw [given]; rfl
  have performed := (perform_of_next? went).1
  rw [given] at performed
  cases ran : operation.read session.cursor with
  | ok other final =>
    rw [ran] at performed
    cases performed
    exact ⟨final, rfl, rfl⟩
  | error cause final =>
    rw [ran] at performed
    cases performed

theorem ReadsByte.next_eq (taken : session.ReadsByte operation byte next) :
    ∃ rest, session.cursor.rest = byte :: rest ∧
      next = ⟨session.bytes, session.cursor.position + 1, rest, some byte⟩ := by
  have single {other : UInt8} {final : Cursor} (ran : Reader.u8 session.cursor = .ok other final) :
      ∃ rest, session.cursor.rest = other :: rest ∧ final = ⟨session.cursor.position + 1, rest, some other⟩ := by
    unfold Reader.u8 at ran
    split at ran
    next rest split =>
      cases ran
      exact ⟨rest, split, rfl⟩
    next => cases ran
  rcases taken with ⟨_, given⟩ | ⟨_, given⟩
  · obtain ⟨final, ran, rfl⟩ := read_of_answered given
    obtain ⟨rest, split, rfl⟩ := single ran
    exact ⟨rest, split, rfl⟩
  · obtain ⟨final, ran, rfl⟩ := read_of_answered given
    obtain ⟨other, middle, head, ran⟩ := steps_of_bind_ok ran
    obtain ⟨rest, split, rfl⟩ := single head
    obtain ⟨same, rfl⟩ := EStateM.Result.ok.inj ran
    obtain rfl : other = byte := congrArg Int8.toUInt8 same
    exact ⟨rest, split, rfl⟩

theorem ReadsByte.next?_eq (taken : session.ReadsByte operation byte next) :
    (session.perform operation).next? = some next := by
  rcases taken with ⟨rfl, given⟩ | ⟨rfl, given⟩
  · rw [given]
    rfl
  · rw [given]
    rfl

theorem Sound.readsByte (sound : session.Sound bytes start) (split : session.cursor.rest = byte :: rest)
    (single : operation = .number .u8 ∨ operation = .number .i8) :
    session.ReadsByte operation byte ⟨bytes, session.cursor.position + 1, rest, some byte⟩ := by
  have taken : Reader.u8 session.cursor = .ok byte ⟨session.cursor.position + 1, rest, some byte⟩ := by
    simp only [Reader.u8, split]
  have performed (format : NumberFormat) :
      session.perform (.number format) = .ofRead bytes (format.read session.cursor) :=
    sound.perform_eq fun _ empty => by rcases empty with ⟨⟨⟩⟩ | ⟨⟨⟩⟩
  rcases single with rfl | rfl
  · exact .inl ⟨rfl, by rw [performed, NumberFormat.read, taken]; rfl⟩
  · refine .inr ⟨rfl, ?_⟩
    rw [performed, NumberFormat.read, Reader.i8, Reader.return_of_ok taken]
    rfl

-- The byte to be put back is the one that was just read, or it was there before and a line was asked for in vain.
theorem Sound.last_step (sound : session.Sound bytes start)
    (went : (session.perform operation).next? = some next) :
    next.cursor.last = some byte ↔ (∃ final, session.ReadsByte operation byte final) ∨
      operation = .line ∧ session.cursor.isExhausted = true ∧ session.cursor.last = some byte := by
  obtain ⟨_, reached⟩ := perform_of_next? went
  constructor
  · intro held
    have moved := operation.effect session.cursor
    rw [reached] at held
    generalize stateOf (operation.read session.cursor) = final at moved held
    cases moved with
    | advance => cases held
    | @single format other rest narrow split =>
      cases held
      have kinds : Operation.number format = .number .u8 ∨ Operation.number format = .number .i8 :=
        (NumberFormat.eq_of_narrow narrow).imp (congrArg _) (congrArg _)
      exact .inl ⟨_, sound.readsByte split kinds⟩
    | back => cases held
    | noByte free =>
      rw [free] at held
      cases held
    | noLine ended => exact .inr ⟨rfl, ended, held⟩
  · rintro (⟨final, taken⟩ | ⟨rfl, ended, held⟩)
    · obtain rfl : next = final := Option.some.inj (went.symm.trans taken.next?_eq)
      obtain ⟨_, _, rfl⟩ := taken.next_eq
      rfl
    · have idle : Operation.read .line session.cursor = .ok none session.cursor := if_pos ended
      rw [reached, idle]
      exact held

-- The last thing that was read is this byte, on its own. Lines that were asked for at the end are left aside, since
-- nothing was read for them.
inductive Holds (start : Session) : List Operation → UInt8 → Prop where
  | read {earlier : List Operation} {before next : Session} {single : Operation} {byte : UInt8}
      (reached : start.after earlier = some before) (taken : before.ReadsByte single byte next) :
      Holds start (earlier ++ [single]) byte
  | line {earlier : List Operation} {before : Session} {byte : UInt8} (kept : Holds start earlier byte)
      (reached : start.after earlier = some before) (ended : before.cursor.isExhausted = true) :
      Holds start (earlier ++ [.line]) byte

theorem last_eq_some_iff (reached : (placed bytes start).after operations = some session) :
    session.cursor.last = some byte ↔ (placed bytes start).Holds operations byte := by
  induction operations using List.reverseRecOn generalizing session with
  | nil =>
    cases reached
    refine iff_of_false (by rintro ⟨⟩) fun holds => ?_
    generalize whole : ([] : List Operation) = all at holds
    cases holds <;> simp at whole
  | append_singleton earlier operation ih =>
    rw [after_concat] at reached
    obtain ⟨before, first, went⟩ := Option.bind_eq_some_iff.mp reached
    rw [((Sound.placed bytes start).after first).last_step went]
    constructor
    · rintro (⟨final, taken⟩ | ⟨rfl, ended, held⟩)
      · exact .read first taken
      · exact .line ((ih first).mp held) first ended
    · intro holds
      generalize whole : earlier ++ [operation] = all at holds
      cases holds with
      | @read others _ final _ _ again taken =>
        obtain ⟨rfl, last⟩ := List.append_inj' whole rfl
        cases last
        obtain rfl := Option.some.inj (first.symm.trans again)
        exact .inl ⟨final, taken⟩
      | line kept again ended =>
        obtain ⟨rfl, last⟩ := List.append_inj' whole rfl
        cases last
        obtain rfl := Option.some.inj (first.symm.trans again)
        exact .inr ⟨rfl, ended, (ih first).mpr kept⟩

theorem Sound.perform_putBack (sound : session.Sound bytes start) :
    session.perform .putBack = .ofRead bytes (Reader.putBack session.cursor) :=
  sound.perform_eq fun _ empty => by rcases empty with ⟨⟨⟩⟩ | ⟨⟨⟩⟩

theorem Sound.putBack_of_some (sound : session.Sound bytes start) (held : session.cursor.last = some byte) :
    session.perform .putBack =
      .answered () ⟨bytes, session.cursor.position - 1, byte :: session.cursor.rest, none⟩ := by
  rw [sound.perform_putBack, Reader.putBack, held]
  rfl

theorem Sound.putBack_of_none (sound : session.Sound bytes start) (free : session.cursor.last = none) :
    session.perform .putBack = .refused (.nothingToPutBack session.cursor.position) session := by
  rw [sound.perform_putBack, Reader.putBack, free, ← sound.bytes_eq]
  rfl

theorem putBack_answered (sound : session.Sound bytes start) :
    (∃ next, session.perform .putBack = .answered () next) ↔ ∃ byte, session.cursor.last = some byte := by
  constructor
  · rintro ⟨next, given⟩
    cases held : session.cursor.last with
    | none =>
      rw [sound.putBack_of_none held] at given
      cases given
    | some byte => exact ⟨byte, rfl⟩
  · rintro ⟨byte, held⟩
    exact ⟨_, sound.putBack_of_some held⟩

/-- A byte can be put back just if it was the last thing that was read, on its own. Otherwise that is refused and nothing
changes. Unless a line was asked for at the end, the read has to come right before. -/
theorem putBack_answered_iff (bytes : List UInt8) (start : Nat) (operations : List Operation) (session : Session)
    (reached : (placed bytes start).after operations = some session) :
    ((∃ next, session.perform .putBack = .answered () next) ↔
      ∃ byte, (placed bytes start).Holds operations byte) ∧
    ((¬∃ byte, (placed bytes start).Holds operations byte) →
      session.perform .putBack = .refused (.nothingToPutBack session.cursor.position) session) ∧
    ((∀ earlier before, operations = earlier ++ [.line] → (placed bytes start).after earlier = some before →
        before.cursor.isExhausted = false) →
      ((∃ next, session.perform .putBack = .answered () next) ↔
        ∃ earlier before single byte, operations = earlier ++ [single] ∧
          (placed bytes start).after earlier = some before ∧ before.ReadsByte single byte session)) := by
  have sound := (Sound.placed bytes start).after reached
  have answered : (∃ next, session.perform .putBack = .answered () next) ↔
      ∃ byte, (placed bytes start).Holds operations byte :=
    (putBack_answered sound).trans (exists_congr fun _ => last_eq_some_iff reached)
  refine ⟨answered, fun unheld => ?_, fun busy => answered.trans ⟨?_, ?_⟩⟩
  · refine sound.putBack_of_none (Option.eq_none_iff_forall_not_mem.mpr fun byte held => ?_)
    exact unheld ⟨byte, (last_eq_some_iff reached).mp held⟩
  · rintro ⟨byte, holds⟩
    cases holds with
    | @read earlier before next single _ first taken =>
      rw [after_concat, first, Option.bind_some, taken.next?_eq] at reached
      obtain rfl := Option.some.inj reached
      exact ⟨earlier, before, single, byte, rfl, first, taken⟩
    | line kept first ended =>
      rw [busy _ _ rfl first] at ended
      cases ended
  · rintro ⟨earlier, before, single, byte, rfl, first, taken⟩
    exact ⟨byte, .read first taken⟩

theorem putBack_answered_iff_refused :
    (placed [7] 0).after [.number .u8, .number .i8] = some ⟨[7], 1, [], none⟩ ∧
      ¬∃ byte, (placed [7] 0).Holds [.number .u8, .number .i8] byte := by
  have reached : (placed [7] 0).after [.number .u8, .number .i8] = some ⟨[7], 1, [], none⟩ := rfl
  refine ⟨reached, fun holds => ?_⟩
  obtain ⟨next, given⟩ := (putBack_answered_iff [7] 0 _ _ reached).1.mpr holds
  cases given

-- Asking for a line at the end leaves the byte that was read before it to be put back.
theorem byte_kept_by_missing_line :
    ∃ session, (opened [97]).after [.number .u8, .line] = some session ∧
      session.perform .putBack = .answered () ⟨[97], 0, [97], none⟩ ∧
      ¬∃ earlier before single byte, [.number .u8, .line] = earlier ++ [single] ∧
        (opened [97]).after earlier = some before ∧ before.ReadsByte single byte session := by
  refine ⟨⟨[97], 1, [], some 97⟩, rfl, rfl, ?_⟩
  rintro ⟨earlier, before, single, byte, split, _, taken⟩
  have parts : [Operation.number .u8] ++ [Operation.line] = earlier ++ [single] := split
  obtain ⟨_, last⟩ := List.append_inj' parts rfl
  cases last
  rcases taken with ⟨⟨⟩, _⟩ | ⟨⟨⟩, _⟩

end Session

end PhaseCheck
