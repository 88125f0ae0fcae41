import PhaseCheck.Proofs.Steps
import PhaseCheck.Binary.Cursor

set_option autoImplicit false

namespace PhaseCheck

namespace Reader

def Yields {α : Type} (read : Reader α) (holds : α → Prop) : Prop :=
  ∀ ⦃cursor value final⦄, read cursor = .ok value final → holds value

namespace Yields

variable {α β : Type} {read : Reader α} {holds : α → Prop}

theorem done {value : α} (known : holds value) : Yields (pure value) holds := by
  intro cursor result final ran
  cases ran
  exact known

theorem failed (cause : FormatError) : Yields (throw cause) holds := by
  intro cursor result final ran
  cases ran

theorem lifted {outcome : Except FormatError α} (known : ∀ value, outcome = .ok value → holds value) :
    Yields (liftM outcome) holds := by
  intro cursor result final ran
  cases outcome with
  | error cause => cases ran
  | ok value =>
    cases ran
    exact known result rfl

theorem andThen {first : Reader β} {next : β → Reader α} (each : ∀ value, Yields (next value) holds) :
    Yields (first >>= next) holds := by
  intro cursor result final ran
  obtain ⟨value, middle, _, tail⟩ := steps_of_bind_ok ran
  exact each value tail

theorem using_first {first : Reader β} {next : β → Reader α} {known : β → Prop} (head : Yields first known)
    (each : ∀ value, known value → Yields (next value) holds) : Yields (first >>= next) holds := by
  intro cursor result final ran
  obtain ⟨value, middle, step, tail⟩ := steps_of_bind_ok ran
  exact each value (head step) tail

theorem times (each : Yields read holds) (count : Nat) :
    Yields (Reader.times read count) fun values => ∀ value ∈ values, holds value := by
  induction count with
  | zero => exact done (by simp)
  | succ count ih =>
    refine using_first each fun first here => using_first ih fun others there => done ?_
    simpa using ⟨here, there⟩

theorem counted (each : Yields read holds) :
    Yields (Reader.counted read) fun values => ∀ value ∈ values, holds value :=
  andThen fun count => each.times count.toNat

theorem whole (yields : Yields read holds) {bytes : List UInt8} {value : α} (parsed : read.whole bytes = .ok value) :
    holds value := by
  unfold Reader.whole at parsed
  split at parsed
  next result final ran =>
    cases parsed
    obtain ⟨first, middle, head, ran⟩ := steps_of_bind_ok ran
    obtain ⟨_, last, _, ran⟩ := steps_of_bind_ok ran
    cases ran
    exact yields head
  next => cases parsed

end Yields

end Reader

end PhaseCheck
