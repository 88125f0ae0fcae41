import Mathlib.Data.List.Nodup
import PhaseCheck.Proofs.Steps
import PhaseCheck.Code.Scan

set_option autoImplicit false

namespace PhaseCheck

/-- The offsets to which control can get from some entries. -/
inductive Reachable (bytecode : List UInt8) (entries : List Nat) : Nat → Prop where
  | entry {offset : Nat} (start : offset ∈ entries) : Reachable bytecode entries offset
  | branch {offset target : Nat} {instruction : Instruction} (here : Reachable bytecode entries offset)
      (decoded : Instruction.decode bytecode offset = .ok instruction) (branches : target ∈ instruction.targets) :
      Reachable bytecode entries target
  | next {offset : Nat} {instruction : Instruction} (here : Reachable bytecode entries offset)
      (decoded : Instruction.decode bytecode offset = .ok instruction) (falls : instruction.fallsThrough = true) :
      Reachable bytecode entries instruction.next

inductive StartsBlock (bytecode : List UInt8) (entries : List Nat) (offset : Nat) : Prop where
  | entry (start : offset ∈ entries)
  | branch {origin : Nat} {instruction : Instruction} (reachable : Reachable bytecode entries origin)
      (decoded : Instruction.decode bytecode origin = .ok instruction) (branches : offset ∈ instruction.targets)

theorem Instruction.offset_of_decode {bytecode : List UInt8} {offset : Nat} {instruction : Instruction}
    (decoded : decode bytecode offset = .ok instruction) : instruction.offset = offset := by
  unfold decode at decoded
  split at decoded
  next => cases decoded
  next => cases decoded
  next =>
    obtain ⟨targets, _, decoded⟩ := values_of_bind_ok decoded
    cases decoded
    rfl

theorem mem_insertAscending {offset other : Nat} {offsets : List Nat} :
    other ∈ insertAscending offset offsets ↔ other = offset ∨ other ∈ offsets := by
  induction offsets with
  | nil => simp [insertAscending]
  | cons first rest ih =>
    simp only [insertAscending]
    split
    · simp
    · split
      next _ same => simp [same]
      next => simp only [List.mem_cons, ih]; grind

theorem insertAscending_pairwise {offset : Nat} {offsets : List Nat} (ascending : offsets.Pairwise (· < ·)) :
    (insertAscending offset offsets).Pairwise (· < ·) := by
  induction offsets with
  | nil => simp [insertAscending]
  | cons first rest ih =>
    obtain ⟨least, ascendingRest⟩ := List.pairwise_cons.mp ascending
    simp only [insertAscending]
    split
    next before =>
      refine List.pairwise_cons.mpr ⟨?_, ascending⟩
      intro other present
      rcases List.mem_cons.mp present with rfl | later
      · exact before
      · exact Nat.lt_trans before (least other later)
    next notBefore =>
      split
      next => exact ascending
      next different =>
        refine List.pairwise_cons.mpr ⟨?_, ih ascendingRest⟩
        intro other present
        rcases mem_insertAscending.mp present with rfl | later
        · omega
        · exact least other later

namespace Scan

section

variable {scan : Scan} {offset other : Nat} {offsets : List Nat}

theorem mem_enter_starts : other ∈ (scan.enter offset).starts ↔ other = offset ∨ other ∈ scan.starts := by
  unfold enter
  split
  next known => grind
  next => exact mem_insertAscending

theorem mem_enter_pending : other ∈ (scan.enter offset).pending ↔
    (other = offset ∧ offset ∉ scan.starts) ∨ other ∈ scan.pending := by
  unfold enter
  split <;> grind

theorem mem_enterAll_starts : other ∈ (scan.enterAll offsets).starts ↔ other ∈ offsets ∨ other ∈ scan.starts := by
  induction offsets generalizing scan with
  | nil => simp [enterAll]
  | cons offset rest ih =>
    have tail : other ∈ ((scan.enter offset).enterAll rest).starts ↔ _ := ih
    simp only [enterAll, List.foldl_cons, List.mem_cons] at tail ⊢
    rw [tail, mem_enter_starts]
    grind

theorem enterAll_pairwise (ascending : scan.starts.Pairwise (· < ·)) :
    (scan.enterAll offsets).starts.Pairwise (· < ·) := by
  induction offsets generalizing scan with
  | nil => exact ascending
  | cons offset rest ih =>
    have entered : (scan.enter offset).starts.Pairwise (· < ·) := by
      unfold enter
      split
      · exact ascending
      · exact insertAscending_pairwise ascending
    exact ih entered

theorem mem_enterAll_pending : other ∈ (scan.enterAll offsets).pending ↔
    (other ∈ offsets ∧ other ∉ scan.starts) ∨ other ∈ scan.pending := by
  induction offsets generalizing scan with
  | nil => simp [enterAll]
  | cons offset rest ih =>
    have tail : other ∈ ((scan.enter offset).enterAll rest).pending ↔ _ := ih
    simp only [enterAll, List.foldl_cons, List.mem_cons] at tail ⊢
    rw [tail, mem_enter_pending, mem_enter_starts]
    grind

end

section

variable {bytecode : List UInt8} {scan : Scan} {σ : Type}

theorem walk_of_done (visit : Instruction → EStateM FormatError σ Unit) (nothing : scan.pending = []) :
    walk bytecode visit scan none = pure scan := by
  rw [walk]
  split
  next => rfl
  next planned => rw [nothing] at planned; cases planned

theorem walk_of_planned (visit : Instruction → EStateM FormatError σ Unit) {start : Nat} {rest : List Nat}
    (planned : scan.pending = start :: rest) :
    walk bytecode visit scan none = walk bytecode visit { scan with pending := rest } (some start) := by
  rw [walk]
  split
  next nothing => rw [planned] at nothing; cases nothing
  next other => rw [planned] at other; cases other; rfl

theorem walk_of_seen (visit : Instruction → EStateM FormatError σ Unit) {offset : Nat}
    (known : offset ∈ scan.walked) : walk bytecode visit scan (some offset) = walk bytecode visit scan none := by
  conv => lhs; rw [walk, dif_pos (List.contains_iff_mem.mpr known)]

theorem walk_of_new (visit : Instruction → EStateM FormatError σ Unit) {offset : Nat}
    (new : offset ∉ scan.walked) :
    walk bytecode visit scan (some offset) =
      (match Instruction.decode bytecode offset with
      | .error cause => throw cause
      | .ok instruction => do
        visit instruction
        walk bytecode visit (scan.pass offset instruction.targets)
          (if instruction.fallsThrough then some instruction.next else none)) := by
  rw [walk, dif_neg (mt List.contains_iff_mem.mp new)]
  split
  next decoded => rw [decoded]
  next decoded => rw [decoded]

end

/-- What is known on the way: the offsets walked, planned and at hand are reachable, the starts are those seen
from what has been walked, and what control gets to from there is walked, planned or at hand. -/
structure Explores (bytecode : List UInt8) (entries : List Nat) (scan : Scan) (current : Option Nat) : Prop where
  walked : ∀ offset ∈ scan.walked, Reachable bytecode entries offset
  planned : ∀ offset ∈ scan.pending, Reachable bytecode entries offset
  atHand : ∀ offset ∈ current, Reachable bytecode entries offset
  ascending : scan.starts.Pairwise (· < ·)
  entered : ∀ offset ∈ entries, offset ∈ scan.starts
  started : ∀ offset ∈ scan.starts, StartsBlock bytecode entries offset
  covered : ∀ offset ∈ scan.starts, offset ∈ scan.pending ∨ offset ∈ scan.walked ∨ offset ∈ current
  closed : ∀ offset ∈ scan.walked, ∃ instruction, Instruction.decode bytecode offset = .ok instruction ∧
    (∀ target ∈ instruction.targets, target ∈ scan.starts) ∧
    (instruction.fallsThrough = true → instruction.next ∈ scan.walked ∨ instruction.next ∈ current)
  distinct : scan.walked.Nodup

namespace Explores

variable {bytecode : List UInt8} {entries : List Nat} {scan : Scan}

theorem ofEntries : Explores bytecode entries (.ofEntries entries) none where
  walked := by simp [Scan.ofEntries]
  planned offset within := by
    rcases mem_enterAll_pending.mp within with new | old
    · exact .entry new.1
    · cases old
  atHand := by simp
  ascending := enterAll_pairwise .nil
  entered offset within := mem_enterAll_starts.mpr (.inl within)
  started offset within := by
    rcases mem_enterAll_starts.mp within with new | old
    · exact .entry new
    · cases old
  covered offset within := by
    rcases mem_enterAll_starts.mp within with new | old
    · exact .inl (mem_enterAll_pending.mpr (.inl ⟨new, List.not_mem_nil⟩))
    · cases old
  closed := by simp [Scan.ofEntries]
  distinct := by simp [Scan.ofEntries]

theorem resume {start : Nat} {rest : List Nat} (explores : Explores bytecode entries scan none)
    (planned : scan.pending = start :: rest) :
    Explores bytecode entries { scan with pending := rest } (some start) where
  walked := explores.walked
  planned offset within := explores.planned offset (planned ▸ List.mem_cons_of_mem _ within)
  atHand := by simpa using explores.planned start (by simp [planned])
  ascending := explores.ascending
  entered := explores.entered
  started := explores.started
  covered offset within := by
    have known := explores.covered offset within
    simp only [planned, List.mem_cons, Option.mem_def] at known ⊢
    grind
  closed offset within := by
    obtain ⟨instruction, decoded, targets, falls⟩ := explores.closed offset within
    exact ⟨instruction, decoded, targets, fun through => .inl ((falls through).resolve_right (by simp))⟩
  distinct := explores.distinct

theorem seen {offset : Nat} (explores : Explores bytecode entries scan (some offset))
    (known : offset ∈ scan.walked) : Explores bytecode entries scan none where
  walked := explores.walked
  planned := explores.planned
  atHand := by simp
  ascending := explores.ascending
  entered := explores.entered
  started := explores.started
  covered other within := by
    have place := explores.covered other within
    grind
  closed other within := by
    obtain ⟨instruction, decoded, targets, falls⟩ := explores.closed other within
    refine ⟨instruction, decoded, targets, fun through => .inl ?_⟩
    rcases falls through with walked | here
    · exact walked
    · cases here
      exact known
  distinct := explores.distinct

theorem pass {offset : Nat} {instruction : Instruction} (explores : Explores bytecode entries scan (some offset))
    (new : offset ∉ scan.walked) (decoded : Instruction.decode bytecode offset = .ok instruction) :
    Explores bytecode entries (scan.pass offset instruction.targets)
      (if instruction.fallsThrough then some instruction.next else none) := by
  have here : Reachable bytecode entries offset := explores.atHand offset rfl
  have walked : (scan.pass offset instruction.targets).walked = offset :: scan.walked := enterAll_walked ..
  have starts {other : Nat} : other ∈ (scan.pass offset instruction.targets).starts ↔
    other ∈ instruction.targets ∨ other ∈ scan.starts := mem_enterAll_starts
  have planned {other : Nat} : other ∈ (scan.pass offset instruction.targets).pending ↔
    (other ∈ instruction.targets ∧ other ∉ scan.starts) ∨ other ∈ scan.pending := mem_enterAll_pending
  constructor
  case walked =>
    intro other within
    rcases List.mem_cons.mp (walked ▸ within) with rfl | earlier
    · exact here
    · exact explores.walked other earlier
  case planned =>
    intro other within
    rcases planned.mp within with branches | earlier
    · exact .branch here decoded branches.1
    · exact explores.planned other earlier
  case atHand =>
    intro other within
    split at within
    next falls => cases within; exact .next here decoded falls
    next => cases within
  case ascending => exact enterAll_pairwise explores.ascending
  case entered => exact fun other within => starts.mpr (.inr (explores.entered other within))
  case started =>
    intro other within
    rcases starts.mp within with branches | earlier
    · exact .branch here decoded branches
    · exact explores.started other earlier
  case covered =>
    intro other within
    -- A start that was known before is where it was, unless it is the instruction that has just been walked.
    by_cases old : other ∈ scan.starts
    · rcases explores.covered other old with waiting | earlier | same
      · exact .inl (planned.mpr (.inr waiting))
      · exact .inr (.inl (walked ▸ List.mem_cons_of_mem _ earlier))
      · cases same
        exact .inr (.inl (walked ▸ List.mem_cons_self ..))
    · exact .inl (planned.mpr (.inl ⟨(starts.mp within).resolve_right old, old⟩))
  case closed =>
    intro other within
    rcases List.mem_cons.mp (walked ▸ within) with rfl | earlier
    · exact ⟨instruction, decoded, fun _ branches => starts.mpr (.inl branches), fun falls => .inr (by simp [falls])⟩
    · obtain ⟨earlierInstruction, earlierDecoded, targets, falls⟩ := explores.closed other earlier
      refine ⟨earlierInstruction, earlierDecoded, fun _ branches => starts.mpr (.inr (targets _ branches)), ?_⟩
      intro through
      -- Control fell through from an earlier instruction to this one, or to one before it.
      rcases falls through with known | same
      · exact .inl (walked ▸ List.mem_cons_of_mem _ known)
      · cases same
        exact .inl (walked ▸ List.mem_cons_self ..)
  case distinct =>
    rw [walked]
    exact List.nodup_cons.mpr ⟨new, explores.distinct⟩

theorem mem_walked_of_reachable (explores : Explores bytecode entries scan none) (nothing : scan.pending = [])
    {offset : Nat} (reachable : Reachable bytecode entries offset) : offset ∈ scan.walked := by
  -- Nothing is planned any more and nothing is at hand, so every start has been walked from.
  have started {offset : Nat} (start : offset ∈ scan.starts) : offset ∈ scan.walked := by
    simpa [nothing] using explores.covered offset start
  induction reachable with
  | entry start => exact started (explores.entered _ start)
  | branch _ decoded branches ih =>
    obtain ⟨instruction, same, targets, _⟩ := explores.closed _ ih
    rw [decoded] at same
    cases same
    exact started (targets _ branches)
  | next _ decoded falls ih =>
    obtain ⟨instruction, same, _, through⟩ := explores.closed _ ih
    rw [decoded] at same
    cases same
    exact (through falls).resolve_right (by simp)

end Explores

/-- One step of a walk, with the instructions that are visited in it. -/
inductive Goes (bytecode : List UInt8) : Scan × Option Nat → List Instruction → Scan × Option Nat → Prop where
  | resume {scan : Scan} {start : Nat} {rest : List Nat} (planned : scan.pending = start :: rest) :
      Goes bytecode (scan, none) [] ({ scan with pending := rest }, some start)
  | seen {scan : Scan} {offset : Nat} (known : offset ∈ scan.walked) :
      Goes bytecode (scan, some offset) [] (scan, none)
  | pass {scan : Scan} {offset : Nat} {instruction : Instruction} (new : offset ∉ scan.walked)
      (decoded : Instruction.decode bytecode offset = .ok instruction) :
      Goes bytecode (scan, some offset) [instruction]
        (scan.pass offset instruction.targets, if instruction.fallsThrough then some instruction.next else none)

section

variable {bytecode : List UInt8} {entries : List Nat} {earlier later : Scan × Option Nat} {shown : List Instruction}

def workLeft (bytecode : List UInt8) (position : Scan × Option Nat) : Nat × Nat :=
  (unvisited (List.range bytecode.length) position.1.walked,
    -- What is planned counts twice: it is first at hand, and then it may turn out to be known.
    2 * position.1.pending.length + position.2.toList.length)

theorem Goes.workLeft_lt (goes : Goes bytecode earlier shown later) :
    Prod.Lex (· < ·) (· < ·) (workLeft bytecode later) (workLeft bytecode earlier) := by
  cases goes with
  | resume planned =>
    apply Prod.Lex.right
    simp [planned]
    omega
  | seen known =>
    apply Prod.Lex.right
    simp
  | pass new decoded =>
    apply Prod.Lex.left
    have inside := List.mem_range.mpr (Instruction.lt_length_of_decode decoded)
    simpa [Scan.pass] using unvisited_cons_lt inside new

theorem goes_wellFounded (bytecode : List UInt8) :
    WellFounded fun later earlier => ∃ shown, Goes bytecode earlier shown later := by
  have lexicographic := (Prod.lex Nat.lt_wfRel Nat.lt_wfRel).wf
  refine Subrelation.wf ?_ (InvImage.wf (workLeft bytecode) lexicographic)
  rintro later earlier ⟨shown, goes⟩
  exact goes.workLeft_lt

theorem Goes.explores (goes : Goes bytecode earlier shown later)
    (explores : Explores bytecode entries earlier.1 earlier.2) : Explores bytecode entries later.1 later.2 := by
  cases goes with
  | resume planned => exact explores.resume planned
  | seen known => exact explores.seen known
  | pass new decoded => exact explores.pass new decoded

theorem Goes.walked_eq (goes : Goes bytecode earlier shown later) :
    later.1.walked = (shown.map Instruction.offset).reverse ++ earlier.1.walked := by
  cases goes with
  | resume planned => rfl
  | seen known => rfl
  | pass new decoded => simp [Scan.pass, Instruction.offset_of_decode decoded]

theorem Goes.decode_eq (goes : Goes bytecode earlier shown later) :
    ∀ instruction ∈ shown, Instruction.decode bytecode instruction.offset = .ok instruction := by
  cases goes with
  | resume planned => simp
  | seen known => simp
  | pass new decoded => simpa [Instruction.offset_of_decode decoded] using decoded

theorem Goes.walk_eq (goes : Goes bytecode earlier shown later) {σ : Type}
    (visit : Instruction → EStateM FormatError σ Unit) :
    walk bytecode visit earlier.1 earlier.2 = (do shown.forM visit; walk bytecode visit later.1 later.2) := by
  cases goes with
  | resume planned => exact walk_of_planned visit planned
  | seen known => exact walk_of_seen visit known
  | pass new decoded =>
    rw [walk_of_new visit new, decoded]
    simp [List.forM]

def Alike (bytecode : List UInt8) (entries : List Nat) (other : List UInt8) : Prop :=
  ∀ offset, Reachable bytecode entries offset → Instruction.decode other offset = Instruction.decode bytecode offset

theorem Goes.of_alike (goes : Goes bytecode earlier shown later)
    (explores : Explores bytecode entries earlier.1 earlier.2) {other : List UInt8}
    (alike : Alike bytecode entries other) : Goes other earlier shown later := by
  cases goes with
  | resume planned => exact .resume planned
  | seen known => exact .seen known
  | pass new decoded => exact .pass new ((alike _ (explores.atHand _ rfl)).trans decoded)

end

def conclude {σ : Type} : Except FormatError Scan → EStateM FormatError σ Scan
  | .ok final => pure final
  | .error cause => throw cause

def Concludes (bytecode : List UInt8) (entries : List Nat) : Except FormatError Scan → Prop
  | .ok final => Explores bytecode entries final none ∧ final.pending = []
  | .error cause => ∃ offset, Reachable bytecode entries offset ∧ Instruction.decode bytecode offset = .error cause

/-- A walk from some position to its end, whoever visits. -/
structure Ends (bytecode : List UInt8) (entries : List Nat) (position : Scan × Option Nat) (visited : List Instruction)
    (outcome : Except FormatError Scan) : Prop where
  walks : ∀ {other : List UInt8} {σ : Type} (visit : Instruction → EStateM FormatError σ Unit),
    Alike bytecode entries other →
      walk other visit position.1 position.2 = (do visited.forM visit; conclude outcome)
  reachable : ∀ instruction ∈ visited, Reachable bytecode entries instruction.offset
  decodes : ∀ instruction ∈ visited, Instruction.decode bytecode instruction.offset = .ok instruction
  distinct : (visited.map Instruction.offset).Nodup
  new : ∀ offset ∈ visited.map Instruction.offset, offset ∉ position.1.walked
  walked : ∀ final, outcome = .ok final →
    final.walked = (visited.map Instruction.offset).reverse ++ position.1.walked
  concludes : Concludes bytecode entries outcome

namespace Ends

variable {bytecode : List UInt8} {entries : List Nat} {scan : Scan} {earlier later : Scan × Option Nat}
  {shown visited : List Instruction} {outcome : Except FormatError Scan}

theorem done (explores : Explores bytecode entries scan none) (nothing : scan.pending = []) :
    Ends bytecode entries (scan, none) [] (.ok scan) where
  walks visit _ := walk_of_done visit nothing
  reachable := by simp
  decodes := by simp
  distinct := by simp
  new := by simp
  walked _ same := by cases same; rfl
  concludes := ⟨explores, nothing⟩

theorem stuck {offset : Nat} {cause : FormatError} (here : Reachable bytecode entries offset)
    (new : offset ∉ scan.walked) (refused : Instruction.decode bytecode offset = .error cause) :
    Ends bytecode entries (scan, some offset) [] (.error cause) where
  walks visit alike := by
    rw [walk_of_new visit new, alike offset here, refused]
    rfl
  reachable := by simp
  decodes := by simp
  distinct := by simp
  new := by simp
  walked _ same := by cases same
  concludes := ⟨offset, here, refused⟩

theorem step (ends : Ends bytecode entries later visited outcome) (goes : Goes bytecode earlier shown later)
    (explores : Explores bytecode entries earlier.1 earlier.2) :
    Ends bytecode entries earlier (shown ++ visited) outcome := by
  -- The instructions of this step have just been walked, so the rest of the walk does not visit them again.
  have arrived := goes.explores explores
  have walked := goes.walked_eq
  have once : ((shown.map Instruction.offset).reverse ++ earlier.1.walked).Nodup := walked ▸ arrived.distinct
  obtain ⟨distinct, _, apart⟩ := List.nodup_append.mp once
  simp only [List.nodup_reverse, List.mem_reverse] at distinct apart
  have behind : ∀ offset ∈ visited.map Instruction.offset,
      offset ∉ shown.map Instruction.offset ∧ offset ∉ earlier.1.walked := by
    intro offset within
    have new := ends.new offset within
    rw [walked, List.mem_append, List.mem_reverse] at new
    exact not_or.mp new
  constructor
  case walks =>
    intro other σ visit alike
    rw [(goes.of_alike explores alike).walk_eq visit, ends.walks visit alike]
    simp only [List.forM_eq_forM, List.forM_append, bind_assoc]
  case reachable =>
    intro instruction within
    rcases List.mem_append.mp within with here | there
    · apply arrived.walked
      rw [walked]
      exact List.mem_append_left _ (List.mem_reverse.mpr (List.mem_map_of_mem here))
    · exact ends.reachable instruction there
  case decodes =>
    intro instruction within
    rcases List.mem_append.mp within with here | there
    · exact goes.decode_eq instruction here
    · exact ends.decodes instruction there
  case distinct =>
    rw [List.map_append]
    exact List.nodup_append.mpr ⟨distinct, ends.distinct, fun offset here other there same =>
      (behind other there).1 (same ▸ here)⟩
  case new =>
    intro offset within
    rw [List.map_append] at within
    rcases List.mem_append.mp within with here | there
    · exact fun old => apart offset here offset old rfl
    · exact (behind offset there).2
  case walked =>
    intro final finished
    rw [ends.walked final finished, walked]
    simp
  case concludes => exact ends.concludes

end Ends

theorem exists_ends {bytecode : List UInt8} {entries : List Nat} (position : Scan × Option Nat)
    (explores : Explores bytecode entries position.1 position.2) :
    ∃ visited outcome, Ends bytecode entries position visited outcome := by
  induction position using (goes_wellFounded bytecode).induction with
  | _ position ih =>
    have continues {shown : List Instruction} {later : Scan × Option Nat} (goes : Goes bytecode position shown later) :
        ∃ visited outcome, Ends bytecode entries position visited outcome := by
      obtain ⟨visited, outcome, ends⟩ := ih later ⟨shown, goes⟩ (goes.explores explores)
      exact ⟨shown ++ visited, outcome, ends.step goes explores⟩
    obtain ⟨scan, current⟩ := position
    cases current with
    | none =>
      cases planned : scan.pending with
      | nil => exact ⟨[], .ok scan, .done explores planned⟩
      | cons start rest => exact continues (.resume planned)
    | some offset =>
      by_cases known : offset ∈ scan.walked
      · exact continues (.seen known)
      · cases decoded : Instruction.decode bytecode offset with
        | error cause => exact ⟨[], .error cause, .stuck (explores.atHand offset rfl) known decoded⟩
        | ok instruction => exact continues (.pass known decoded)

section

variable {σ : Type} {bytecode other : List UInt8} {entries starts : List Nat} {visited : List Instruction}
  {outcome : Except FormatError Scan} {final : Scan}

theorem Ends.run_eq (ends : Ends bytecode entries (.ofEntries entries, none) visited outcome)
    (alike : Alike bytecode entries other) (visit : Instruction → EStateM FormatError σ Unit) :
    run other entries visit = (do visited.forM visit; return (← conclude outcome).starts) := by
  rw [run, ends.walks visit alike, bind_assoc]

theorem exists_ends_of_run {visit : Instruction → EStateM FormatError σ Unit} {before after : σ}
    (ran : run bytecode entries visit before = .ok starts after) :
    ∃ visited final, Ends bytecode entries (.ofEntries entries, none) visited (.ok final) ∧ final.starts = starts := by
  obtain ⟨visited, outcome, ends⟩ := exists_ends (Scan.ofEntries entries, none)
    (Explores.ofEntries : Explores bytecode entries _ none)
  rw [ends.run_eq (fun _ _ => rfl)] at ran
  obtain ⟨_, _, _, ran⟩ := steps_of_bind_ok ran
  cases outcome with
  | error cause => cases ran
  | ok final =>
    cases ran
    exact ⟨visited, final, ends, rfl⟩

theorem Ends.mem_visited_iff (ends : Ends bytecode entries (.ofEntries entries, none) visited (.ok final)) {offset : Nat} :
    offset ∈ visited.map Instruction.offset ↔ Reachable bytecode entries offset := by
  obtain ⟨explores, nothing⟩ := ends.concludes
  have same : final.walked = (visited.map Instruction.offset).reverse := by
    simpa [Scan.ofEntries] using ends.walked final rfl
  rw [← List.mem_reverse, ← same]
  exact ⟨explores.walked offset, explores.mem_walked_of_reachable nothing⟩

end

/-- A scan finds the reachable code. Its answer is where blocks start, in ascending order. Each reachable
instruction is handed to the visitor once, whoever the visitor is, and nothing else is. -/
theorem run_visits_reachable {σ : Type} {bytecode : List UInt8} {entries starts : List Nat}
    {visit : Instruction → EStateM FormatError σ Unit} {before after : σ}
    (ran : run bytecode entries visit before = .ok starts after) :
    starts.Pairwise (· < ·) ∧ (∀ offset, offset ∈ starts ↔ StartsBlock bytecode entries offset) ∧
      ∃ visited : List Instruction,
        (∀ {τ : Type} (visitor : Instruction → EStateM FormatError τ Unit),
          run bytecode entries visitor = (do visited.forM visitor; return starts)) ∧
        (visited.map Instruction.offset).Nodup ∧
        (∀ offset, offset ∈ visited.map Instruction.offset ↔ Reachable bytecode entries offset) ∧
        ∀ instruction ∈ visited, Instruction.decode bytecode instruction.offset = .ok instruction := by
  obtain ⟨visited, final, ends, rfl⟩ := exists_ends_of_run ran
  obtain ⟨explores, nothing⟩ := ends.concludes
  refine ⟨explores.ascending, ?_, visited, ?_, ends.distinct, fun _ => ends.mem_visited_iff, ends.decodes⟩
  · refine fun offset => ⟨explores.started offset, ?_⟩
    rintro (start | ⟨origin, decoded, branches⟩)
    · exact explores.entered offset start
    · obtain ⟨instruction, again, targets, _⟩ := explores.closed _ (explores.mem_walked_of_reachable nothing origin)
      rw [decoded] at again
      cases again
      exact targets offset branches
  · intro τ visitor
    rw [ends.run_eq (fun _ _ => rfl)]
    rfl

-- A loop: `ifeq` leaves it for `return`, and `goto` goes back to the start, over a byte that is never reached.
def loopCode : List UInt8 := [0x99, 0, 7, 0xA7, 0xFF, 0xFD, 0xFF, 0xB1]

theorem run_visits_reachable_loop :
    run loopCode [0, 0] (fun instruction seen => .ok () (seen ++ [instruction.offset])) [] = .ok [0, 7] [0, 3, 7] ∧
      (∀ offset, offset ∈ [0, 7] ↔ StartsBlock loopCode [0, 0] offset) ∧
      ∃ visited : List Instruction,
        (visited.forM fun instruction seen => .ok () (seen ++ [instruction.offset]) : EStateM FormatError _ _) [] =
          .ok () [0, 3, 7] ∧
        ∀ offset, offset ∈ visited.map Instruction.offset ↔ Reachable loopCode [0, 0] offset := by
  have ran : run loopCode [0, 0] (fun instruction seen => .ok () (seen ++ [instruction.offset])) [] =
      .ok [0, 7] [0, 3, 7] := by cbv
  obtain ⟨_, starts, visited, visits, _, reachable, _⟩ := run_visits_reachable ran
  obtain ⟨_, last, visiting, done⟩ := steps_of_bind_ok ((congrFun (visits _) []).symm.trans ran)
  cases done
  exact ⟨ran, starts, visited, visiting, reachable⟩

end Scan

end PhaseCheck
