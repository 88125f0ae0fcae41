import PhaseCheck.Proofs.Steps
import PhaseCheck.Binary.Cursor

set_option autoImplicit false

namespace PhaseCheck

def FormatError.IsUnexpectedEnd (cause : FormatError) : Prop :=
  ∃ position requested, cause = .unexpectedEnd position requested

namespace Reader

/-- More bytes at the end, and another byte to put back, make no difference except to a lack of bytes. -/
structure Stable {α : Type} (read : Reader α) : Prop where
  ok : ∀ {position rest last value after}, read ⟨position, rest, last⟩ = .ok value after →
    ∀ extra other, ∃ final,
      read ⟨position, rest ++ extra, other⟩ = .ok value ⟨after.position, after.rest ++ extra, final⟩
  error : ∀ {position rest last cause after}, read ⟨position, rest, last⟩ = .error cause after →
    ¬cause.IsUnexpectedEnd → ∀ extra other, ∃ final,
      read ⟨position, rest ++ extra, other⟩ = .error cause final

namespace Stable

variable {α β γ : Type}

theorem done (value : α) : Stable (pure value) where
  ok ran _ other := by
    cases ran
    exact ⟨other, rfl⟩
  error ran := by cases ran

theorem failed (cause : FormatError) : Stable (throw cause : Reader α) where
  ok ran := by cases ran
  error ran _ _ _ := by
    cases ran
    exact ⟨_, rfl⟩

theorem lifted (outcome : Except FormatError α) : Stable (liftM outcome) := by
  cases outcome with
  | ok value => exact done value
  | error cause => exact failed cause

theorem andThen {read : Reader α} {next : α → Reader β} (first : Stable read)
    (second : ∀ value, Stable (next value)) : Stable (read >>= next) where
  ok ran extra other := by
    -- The second reader starts behind the same bytes as before, with the extra ones still to come.
    obtain ⟨value, middle, head, tail⟩ := steps_of_bind_ok ran
    obtain ⟨last, again⟩ := first.ok head extra other
    rw [bind_of_ok again]
    exact (second value).ok tail extra last
  error ran notEnd extra other := by
    rcases steps_of_bind_error ran with head | ⟨value, middle, head, tail⟩
    · obtain ⟨final, again⟩ := first.error head notEnd extra other
      exact ⟨final, bind_of_error again⟩
    · obtain ⟨last, again⟩ := first.ok head extra other
      rw [bind_of_ok again]
      exact (second value).error tail notEnd extra last

theorem andReturn {read : Reader α} (first : Stable read) (finish : α → β) :
    Stable (do return finish (← read)) :=
  first.andThen fun value => .done (finish value)

theorem ifElse {condition : Prop} [Decidable condition] {yes no : Reader α} (first : Stable yes)
    (second : Stable no) : Stable (if condition then yes else no) := by
  split
  · exact first
  · exact second

theorem take (count : Nat) : Stable (take count) where
  ok {position rest last value after} ran extra other := by
    unfold Reader.take at ran ⊢
    simp only [List.length_take] at ran ⊢
    split at ran
    next enough =>
      cases ran
      have few : count ≤ rest.length := by omega
      rw [if_pos (by simp; omega), List.take_append_of_le_length few, List.drop_append_of_le_length few]
      exact ⟨none, rfl⟩
    next => cases ran
  error {position rest last cause after} ran notEnd := by
    unfold Reader.take at ran
    simp only at ran
    split at ran
    next => cases ran
    next =>
      cases ran
      exact absurd ⟨_, _, rfl⟩ notEnd

theorem u8 : Stable u8 where
  ok {position rest last value after} ran extra other := by
    cases rest with
    | nil => cases ran
    | cons byte rest =>
      cases ran
      exact ⟨_, rfl⟩
  error {position rest last cause after} ran notEnd := by
    cases rest with
    | nil =>
      cases ran
      exact absurd ⟨_, _, rfl⟩ notEnd
    | cons byte rest => cases ran

theorem u16 : Stable u16 :=
  (take 2).andReturn _

theorem u32 : Stable u32 :=
  (take 4).andReturn _

theorem u64 : Stable u64 :=
  (take 8).andReturn _

theorem i32 : Stable i32 :=
  u32.andReturn _

theorem i64 : Stable i64 :=
  u64.andReturn _

theorem text : Stable text :=
  u16.andThen fun length => (take length.toNat).andThen fun bytes => .lifted (decodeText bytes)

theorem times {read : Reader α} (each : Stable read) (count : Nat) : Stable (times read count) := by
  induction count with
  | zero => exact done []
  | succ count ih => exact each.andThen fun first => ih.andReturn (first :: ·)

theorem counted {read : Reader α} (each : Stable read) : Stable (counted read) :=
  u16.andThen fun count => each.times count.toNat

end Stable

end Reader

end PhaseCheck
