import Mathlib.Data.List.Induction
import PhaseCheck.Code.Body

set_option autoImplicit false

namespace PhaseCheck

namespace LineRow

variable {offset : Nat}

/-- What has been found once these rows have been seen. -/
inductive Decides (offset : Nat) : List LineRow → Option LineRow → Prop where
  | nobody {rows : List LineRow} (past : ∀ row ∈ rows, offset < row.start.toNat) : Decides offset rows none
  | row {before after : List LineRow} {row : LineRow} (covers : row.start.toNat ≤ offset)
      (latest : ∀ other ∈ before ++ row :: after, other.start.toNat ≤ offset → other.start ≤ row.start)
      (last : ∀ other ∈ after, other.start ≠ row.start) : Decides offset (before ++ row :: after) (some row)

theorem Decides.closer {rows : List LineRow} {best : Option LineRow} (decided : Decides offset rows best)
    (row : LineRow) : Decides offset (rows ++ [row]) (closer offset best row) := by
  unfold LineRow.closer
  split
  next better =>
    obtain ⟨covers, later⟩ := better
    refine .row covers (fun other present within => ?_) (by simp)
    rcases List.mem_append.mp present with seen | new
    · cases decided with
      | nobody past => exact absurd within (Nat.not_le.mpr (past other seen))
      | @row before after best _ latest _ =>
        have older : best.start ≤ row.start := by simpa using later
        exact UInt16.le_trans (latest other seen within) older
    · exact List.mem_singleton.mp new ▸ UInt16.le_refl _
  next worse =>
    cases decided with
    | nobody past =>
      have beyond : offset < row.start.toNat := by simpa using worse
      refine .nobody fun other present => ?_
      rcases List.mem_append.mp present with seen | new
      · exact past other seen
      · exact List.mem_singleton.mp new ▸ beyond
    | @row before after best covers latest last =>
      -- The row starts past the offset or before the best one, so it neither beats nor ties with it.
      have earlier : row.start.toNat ≤ offset → row.start < best.start := by simpa using worse
      rw [List.append_assoc, List.cons_append]
      refine .row covers (fun other present within => ?_) fun other present same => ?_
      · simp only [← List.cons_append, ← List.append_assoc] at present
        rcases List.mem_append.mp present with seen | new
        · exact latest other seen within
        · obtain rfl := List.mem_singleton.mp new
          exact UInt16.le_of_lt (earlier within)
      · rcases List.mem_append.mp present with seen | new
        · exact last other seen same
        · obtain rfl := List.mem_singleton.mp new
          rw [same] at earlier
          exact UInt16.lt_irrefl _ (earlier covers)

theorem foldl_closer_decides (offset : Nat) (rows : List LineRow) :
    Decides offset rows (rows.foldl (closer offset) none) := by
  induction rows using List.reverseRecOn with
  | nil => exact .nobody (by simp)
  | append_singleton rows row ih =>
    rw [List.foldl_append]
    exact ih.closer row

theorem eq_of_same_start {before before' after after' : List LineRow} {row row' : LineRow}
    (same : before ++ row :: after = before' ++ row' :: after') (start : row.start = row'.start)
    (last : ∀ other ∈ after, other.start ≠ row.start) (last' : ∀ other ∈ after', other.start ≠ row'.start) :
    row = row' := by
  rcases List.append_eq_append_iff.mp same with ⟨middle, _, rest⟩ | ⟨middle, _, rest⟩
  · cases middle with
    | nil => exact (List.cons.inj rest).1
    | cons first more => exact absurd start.symm (last row' (by simp [(List.cons.inj rest).2]))
  · cases middle with
    | nil => exact (List.cons.inj rest).1.symm
    | cons first more => exact absurd start (last' row (by simp [(List.cons.inj rest).2]))

theorem Decides.unique {rows : List LineRow} {best other : Option LineRow} (decided : Decides offset rows best)
    (again : Decides offset rows other) : best = other := by
  cases decided with
  | nobody past =>
    cases again with
    | nobody => rfl
    | @row _ _ row covers => exact absurd covers (Nat.not_le.mpr (past row (by simp)))
  | @row before after row covers latest last =>
    generalize split : before ++ row :: after = rows at again
    cases again with
    | nobody past => exact absurd covers (Nat.not_le.mpr (past row (by simp [← split])))
    | @row before' after' row' covers' latest' last' =>
      have start : row.start = row'.start :=
        UInt16.le_antisymm (latest' row (by simp [← split]) covers) (latest row' (by simp [split]) covers')
      rw [eq_of_same_start split start last last']

end LineRow

/-- The line of an offset is zero just if all rows start past it. Otherwise it is the line of the last row among those
whose start is the greatest that is not past the offset. -/
theorem Body.lineAt_eq_iff (body : Body) (offset : Nat) (line : UInt16) :
    body.lineAt offset = line ↔
      (line = 0 ∧ ∀ row ∈ body.lines, offset < row.start.toNat) ∨
      ∃ before row after, body.lines = before ++ row :: after ∧ row.line = line ∧ row.start.toNat ≤ offset ∧
        (∀ other ∈ body.lines, other.start.toNat ≤ offset → other.start ≤ row.start) ∧
        ∀ other ∈ after, other.start ≠ row.start := by
  have decided := LineRow.foldl_closer_decides offset body.lines
  constructor
  · rintro rfl
    unfold lineAt
    generalize body.lines.foldl (LineRow.closer offset) none = best at decided
    generalize body.lines = rows at decided
    cases decided with
    | nobody past => exact .inl ⟨rfl, past⟩
    | row covers latest last => exact .inr ⟨_, _, _, rfl, rfl, covers, latest, last⟩
  · rintro (⟨rfl, past⟩ | ⟨before, row, after, split, rfl, covers, latest, last⟩)
    · rw [lineAt, decided.unique (.nobody past)]
      rfl
    · rw [split] at latest
      have here : LineRow.Decides offset body.lines (some row) := split ▸ .row covers latest last
      rw [lineAt, decided.unique here]
      rfl

end PhaseCheck
