set_option autoImplicit false

namespace PhaseCheck

variable {α : Type} [DecidableEq α] {catalogue visited : List α} {item : α}

def unvisited (catalogue visited : List α) : Nat :=
  catalogue.countP (· ∉ visited)

theorem unvisited_cons_le : unvisited catalogue (item :: visited) ≤ unvisited catalogue visited :=
  List.countP_mono_left fun other _ new => by simp_all

theorem unvisited_cons_lt (known : item ∈ catalogue) (new : item ∉ visited) :
    unvisited catalogue (item :: visited) < unvisited catalogue visited := by
  have left : 0 < (catalogue.filter fun other => !decide (other ≠ item)).countP (· ∉ visited) :=
    List.countP_pos_iff.mpr ⟨item, by simp [known], by simpa using new⟩
  have fewer : unvisited catalogue (item :: visited) = (catalogue.filter (· ≠ item)).countP (· ∉ visited) := by
    rw [List.countP_filter]
    exact List.countP_congr fun other _ => by simp [and_comm]
  have whole := List.countP_eq_countP_filter_add catalogue (· ∉ visited) (· ≠ item)
  rw [← fewer] at whole
  unfold unvisited at whole ⊢
  omega

end PhaseCheck
