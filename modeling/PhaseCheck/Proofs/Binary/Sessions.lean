import PhaseCheck.Proofs.Binary.FixedReads
import PhaseCheck.Proofs.Binary.Passes
import PhaseCheck.Proofs.Text.Lines

set_option autoImplicit false

namespace PhaseCheck

namespace Operation

/-- All that an operation can do to the cursor, whether or not it succeeds. -/
inductive Effect (cursor : Cursor) : Operation → Cursor → Prop where
  | advance {operation : Operation} {count : Nat} (enough : count ≤ cursor.remaining) :
      Effect cursor operation ⟨cursor.position + count, cursor.rest.drop count, none⟩
  | single {format : NumberFormat} {byte : UInt8} {rest : List UInt8} (narrow : format.width = 1)
      (split : cursor.rest = byte :: rest) :
      Effect cursor (.number format) ⟨cursor.position + 1, rest, some byte⟩
  | back {byte : UInt8} (held : cursor.last = some byte) :
      Effect cursor .putBack ⟨cursor.position - 1, byte :: cursor.rest, none⟩
  | noByte (free : cursor.last = none) : Effect cursor .putBack cursor
  | noLine (ended : cursor.isExhausted = true) : Effect cursor .line cursor

variable {cursor : Cursor}

theorem Effect.stay {operation : Operation} : Effect cursor operation { cursor with last := none } :=
  .advance (Nat.zero_le _)

theorem fixed_effect {operation : Operation} {width : Nat} (known : operation.width? = some width) (cursor : Cursor) :
    Effect cursor operation (stateOf (operation.read cursor)) := by
  rcases Nat.lt_or_ge cursor.remaining width with short | enough
  · rw [read_of_short known short]
    exact .stay
  obtain ⟨value, _, ran⟩ := read_of_enough known enough
  rw [ran, stateOf]
  cases marked : operation.mark cursor with
  | none => exact .advance enough
  | some byte =>
    -- Only numbers of a single byte leave something to be put back.
    cases operation with
    | number format =>
      obtain ⟨narrow, first⟩ := Option.ite_none_right_eq_some.mp marked
      obtain ⟨rest, split⟩ := List.head?_eq_some_iff.mp first
      cases known
      rw [narrow, split]
      exact .single narrow split
    | take | skip | text | line | putBack => cases marked

theorem text_effect (cursor : Cursor) : Effect cursor .text (stateOf (Reader.text cursor)) := by
  rcases Nat.lt_or_ge cursor.remaining 2 with short | enough
  · rw [Reader.text, bind_of_error (Reader.u16_of_short short)]
    exact .stay
  obtain ⟨length, measured⟩ := Reader.u16_of_enough enough
  rw [Reader.text, bind_of_ok measured]
  rcases Nat.lt_or_ge (cursor.rest.drop 2).length length.toNat with short | more
  · -- The length has been read, but not so many bytes are left.
    rw [bind_of_error (Reader.take_of_short short)]
    exact .advance enough
  · have moved : Effect cursor .text
        ⟨cursor.position + 2 + length.toNat, (cursor.rest.drop 2).drop length.toNat, none⟩ := by
      rw [List.drop_drop, Nat.add_assoc]
      refine .advance ?_
      rw [List.length_drop] at more
      unfold Cursor.remaining at enough ⊢
      omega
    rw [bind_of_ok (Reader.take_of_enough more)]
    cases Reader.decodeText ((cursor.rest.drop 2).take length.toNat) <;> exact moved

theorem line_effect (cursor : Cursor) : Effect cursor .line (stateOf (Reader.line cursor)) := by
  obtain ⟨position, bytes, last⟩ := cursor
  by_cases empty : bytes = []
  next =>
    subst empty
    exact .noLine rfl
  next =>
    obtain ⟨first, rest, split⟩ := exists_firstLine empty
    have moved : stateOf (Reader.line ⟨position, bytes, last⟩) = ⟨position + first.length, rest, none⟩ := by
      rw [Reader.line_of_firstLine split]
      cases Reader.decodeText first.content <;> rfl
    have behind : rest = bytes.drop first.length := by
      rw [split.bytes_eq, Line.length, ← List.length_append, List.drop_left]
    have enough : first.length ≤ bytes.length := by
      rw [split.bytes_eq, List.length_append, Line.length, List.length_append]
      exact Nat.le_add_right _ _
    rw [moved, behind]
    exact .advance enough

theorem effect (operation : Operation) (cursor : Cursor) :
    Effect cursor operation (stateOf (operation.read cursor)) := by
  cases operation with
  | number | take | skip => exact fixed_effect rfl cursor
  | text => exact text_effect cursor
  | line => exact line_effect cursor
  | putBack =>
    cases held : cursor.last with
    | none => simpa [read, Reader.putBack, held, stateOf] using .noByte held
    | some byte => simpa [read, Reader.putBack, held, stateOf] using .back held

end Operation

structure Span.Ahead (span : Span) (cursor : Cursor) : Prop where
  ordered : span.start ≤ span.stop
  stop_le : span.stop ≤ cursor.position + cursor.remaining

theorem Cursor.mem_cuts {cursor : Cursor} {count : Nat} {span : Span} :
    span ∈ cursor.cuts count ↔ count ≤ cursor.remaining ∧ span = ⟨cursor.position, cursor.position + count⟩ := by
  unfold cuts
  split
  next enough => simp [enough]
  next short => simp [short]

theorem Cursor.cuts_ahead {cursor : Cursor} {count : Nat} {span : Span} (cut : span ∈ cursor.cuts count) :
    span.Ahead cursor := by
  obtain ⟨enough, rfl⟩ := mem_cuts.mp cut
  exact ⟨Nat.le_add_right _ _, Nat.add_le_add_left enough _⟩

theorem Cursor.Passes.limit_eq {cursor next : Cursor} {bytes : List UInt8} (passes : cursor.Passes bytes next) :
    next.position + next.remaining = cursor.position + cursor.remaining := by
  rw [remaining, remaining, passes.rest_eq, passes.position_eq, List.length_append, Nat.add_assoc]

theorem Span.Ahead.earlier {span : Span} {cursor next : Cursor} {bytes : List UInt8} (ahead : span.Ahead next)
    (passes : cursor.Passes bytes next) : span.Ahead cursor :=
  ⟨ahead.ordered, passes.limit_eq ▸ ahead.stop_le⟩

namespace Reader

theorem lineCuts_ahead {cursor : Cursor} {span : Span} (cut : span ∈ lineCuts cursor) : span.Ahead cursor := by
  fun_induction lineCuts cursor with
  | case1 => cases cut
  | case2 cursor byte next taken ih =>
    obtain ⟨_, _, passes⟩ := ReadsOnly.byte taken
    rcases List.mem_append.mp cut with here | later
    · exact Cursor.cuts_ahead here
    · split at later
      next => cases later
      next =>
        split at later
        next => exact (Cursor.cuts_ahead later).earlier passes
        next => exact (ih later).earlier passes

end Reader

namespace Operation

variable {operation : Operation} {cursor : Cursor} {span : Span}

theorem textCuts_ahead (cut : span ∈ cuts .text cursor) : span.Ahead cursor := by
  rcases List.mem_append.mp cut with here | later
  · exact Cursor.cuts_ahead here
  · split at later
    next length next measured =>
      obtain ⟨_, _, passes⟩ := Reader.ReadsOnly.short measured
      exact (Cursor.cuts_ahead later).earlier passes
    next => cases later

theorem lineCuts_ahead (cut : span ∈ cuts .line cursor) : span.Ahead cursor := by
  obtain ⟨position, bytes, last⟩ := cursor
  by_cases empty : bytes = []
  · subst empty
    cases cut
  · obtain ⟨first, rest, split⟩ := exists_firstLine empty
    obtain ⟨before, stopped⟩ := Reader.lineStop_of_firstLine split position last
    have left : (Cursor.mk position bytes last).isExhausted = false := by simpa [Cursor.isExhausted] using empty
    simp only [cuts, left, stopped, Bool.false_eq_true, if_false, List.mem_append, List.mem_singleton] at cut
    rcases cut with looked | rfl
    · exact Reader.lineCuts_ahead looked
    · refine ⟨Nat.le_add_right _ _, Nat.add_le_add_left ?_ _⟩
      rw [Cursor.remaining, split.bytes_eq, List.append_assoc, List.length_append]
      exact Nat.le_add_right _ _

theorem cuts_ahead (cut : span ∈ operation.cuts cursor) : span.Ahead cursor := by
  cases operation with
  | number | take | skip => exact Cursor.cuts_ahead cut
  | text => exact textCuts_ahead cut
  | line => exact lineCuts_ahead cut
  | putBack => cases cut

def TakesNothing (operation : Operation) : Prop :=
  operation = .take 0 ∨ operation = .skip 0

theorem cuts_of_exhausted (ended : cursor.isExhausted = true) (cut : span ∈ operation.cuts cursor) :
    operation.TakesNothing ∧ span = ⟨cursor.position, cursor.position⟩ := by
  have nothing : cursor.remaining = 0 := by simpa [Cursor.isExhausted, Cursor.remaining] using ended
  have uncut {count : Nat} (positive : 0 < count) : span ∉ cursor.cuts count := fun cut =>
    Nat.not_lt.mpr (nothing ▸ (Cursor.mem_cuts.mp cut).1) positive
  cases operation with
  | number format => exact absurd cut (uncut format.width_pos)
  | take count =>
    obtain ⟨few, rfl⟩ := Cursor.mem_cuts.mp cut
    obtain rfl : count = 0 := Nat.le_zero.mp (nothing ▸ few)
    exact ⟨.inl rfl, rfl⟩
  | skip count =>
    obtain ⟨few, rfl⟩ := Cursor.mem_cuts.mp cut
    obtain rfl : count = 0 := Nat.le_zero.mp (nothing ▸ few)
    exact ⟨.inr rfl, rfl⟩
  | text =>
    rw [cuts, Reader.u16_of_short (nothing ▸ Nat.two_pos), List.append_nil] at cut
    exact absurd cut (uncut Nat.two_pos)
  | line =>
    rw [cuts, if_pos ended] at cut
    cases cut
  | putBack => cases cut

end Operation

namespace Session

def Result.next? {α : Type} : Result α → Option Session
  | .answered _ next | .refused _ next => some next
  | .broken _ => none

def after : Session → List Operation → Option Session
  | session, [] => some session
  | session, operation :: rest => (session.perform operation).next?.bind fun next => next.after rest

theorem after_concat (session : Session) (earlier : List Operation) (operation : Operation) :
    session.after (earlier ++ [operation]) =
      (session.after earlier).bind fun before => (before.perform operation).next? := by
  induction earlier generalizing session with
  | nil => simp [after]
  | cons first rest ih =>
    rw [List.cons_append, after, after, Option.bind_assoc]
    exact congrArg _ (funext ih)

variable {session next : Session} {operation : Operation} {operations : List Operation}

theorem next?_ofRead {α : Type} (bytes : List UInt8) (outcome : EStateM.Result FormatError Cursor α) :
    (Result.ofRead bytes outcome).next? = some ⟨bytes, stateOf outcome⟩ := by
  cases outcome <;> rfl

theorem next?_eq_none_iff : (session.perform operation).next? = none ↔
    ∃ span ∈ operation.cuts session.cursor, span.isWithin session.bytes = false := by
  unfold perform
  split
  next span searched =>
    have outside := List.find?_some searched
    exact iff_of_true rfl ⟨span, List.mem_of_find?_eq_some searched, by simpa using outside⟩
  next searched =>
    rw [next?_ofRead]
    refine iff_of_false (by rintro ⟨⟩) ?_
    rintro ⟨span, cut, outside⟩
    have within := List.find?_eq_none.mp searched span cut
    simp [outside] at within

theorem perform_of_next? (went : (session.perform operation).next? = some next) :
    session.perform operation = .ofRead session.bytes (operation.read session.cursor) ∧
      next = ⟨session.bytes, stateOf (operation.read session.cursor)⟩ := by
  unfold perform at went ⊢
  split at went
  next => cases went
  next =>
    rw [next?_ofRead] at went
    exact ⟨rfl, (Option.some.inj went).symm⟩

/-- How a session stands that was placed at some position of some bytes. -/
structure Sound (bytes : List UInt8) (start : Nat) (session : Session) : Prop where
  bytes_eq : session.bytes = bytes
  rest_eq : session.cursor.rest = bytes.drop session.cursor.position
  inside : start ≤ bytes.length → session.cursor.position ≤ bytes.length
  beyond : bytes.length < start → session.cursor.position = start
  held : ∀ byte, session.cursor.last = some byte →
    ∃ before, session.cursor.position = before + 1 ∧ bytes.drop before = byte :: session.cursor.rest

variable {bytes : List UInt8} {start : Nat}

namespace Sound

theorem placed (bytes : List UInt8) (start : Nat) : (placed bytes start).Sound bytes start where
  bytes_eq := rfl
  rest_eq := rfl
  inside := id
  beyond _ := rfl
  held _ kept := by cases kept

theorem remaining_eq (sound : session.Sound bytes start) :
    session.cursor.remaining = bytes.length - session.cursor.position := by
  rw [Cursor.remaining, sound.rest_eq, List.length_drop]

theorem lt_length_of_drop_eq_cons {position : Nat} {byte : UInt8} {rest : List UInt8}
    (whole : bytes.drop position = byte :: rest) : position < bytes.length := by
  refine Nat.lt_of_not_le fun past => ?_
  rw [List.drop_of_length_le past] at whole
  cases whole

theorem step (sound : session.Sound bytes start) {final : Cursor} (moved : operation.Effect session.cursor final) :
    (Session.mk bytes final).Sound bytes start := by
  have left := sound.remaining_eq
  cases moved with
  | @advance _ count enough =>
    refine ⟨rfl, ?_, fun early => ?_, fun late => ?_, by rintro _ ⟨⟩⟩
    · exact (congrArg (List.drop count) sound.rest_eq).trans List.drop_drop
    · have within := sound.inside early
      change session.cursor.position + count ≤ bytes.length
      omega
    · -- Past the end there is nothing to move over.
      have place := sound.beyond late
      change session.cursor.position + count = start
      omega
  | @single format byte rest narrow split =>
    have whole : bytes.drop session.cursor.position = byte :: rest := sound.rest_eq.symm.trans split
    have within := lt_length_of_drop_eq_cons whole
    refine ⟨rfl, ?_, fun _ => within, fun late => ?_, ?_⟩
    · exact (congrArg (List.drop 1) whole).symm.trans List.drop_drop
    · have place := sound.beyond late
      omega
    · rintro _ ⟨⟩
      exact ⟨_, rfl, whole⟩
  | @back byte held =>
    obtain ⟨before, place, whole⟩ := sound.held byte held
    have within := lt_length_of_drop_eq_cons whole
    have back : session.cursor.position - 1 = before := by omega
    refine ⟨rfl, ?_, fun _ => ?_, fun late => ?_, by rintro _ ⟨⟩⟩
    · simp only [back, whole]
    · simp only [back]
      exact Nat.le_of_lt within
    · have past := sound.beyond late
      omega
  | noByte | noLine => exact ⟨rfl, sound.rest_eq, sound.inside, sound.beyond, sound.held⟩

theorem perform (sound : session.Sound bytes start) (went : (session.perform operation).next? = some next) :
    next.Sound bytes start := by
  rw [(perform_of_next? went).2, sound.bytes_eq]
  exact sound.step (operation.effect session.cursor)

theorem after (sound : session.Sound bytes start) (went : session.after operations = some next) :
    next.Sound bytes start := by
  induction operations generalizing session with
  | nil =>
    cases went
    exact sound
  | cons operation rest ih =>
    obtain ⟨middle, first, others⟩ := Option.bind_eq_some_iff.mp went
    exact ih (sound.perform first) others

theorem isExhausted (sound : session.Sound bytes start) (late : bytes.length < start) :
    session.cursor.isExhausted = true := by
  rw [Cursor.isExhausted, sound.rest_eq, sound.beyond late, List.drop_of_length_le (Nat.le_of_lt late)]
  rfl

theorem stop_le (sound : session.Sound bytes start) (early : start ≤ bytes.length) {span : Span}
    (cut : span ∈ operation.cuts session.cursor) : span.stop ≤ bytes.length := by
  have upTo := (Operation.cuts_ahead cut).stop_le
  rwa [sound.remaining_eq, Nat.add_sub_cancel' (sound.inside early)] at upTo

theorem breaks_iff (sound : session.Sound bytes start) :
    (session.perform operation).next? = none ↔ bytes.length < start ∧ operation.TakesNothing := by
  rw [next?_eq_none_iff, sound.bytes_eq]
  constructor
  · rintro ⟨span, cut, bad⟩
    have late : bytes.length < start := by
      by_contra early
      have upTo := sound.stop_le (Nat.not_lt.mp early) cut
      simp [Span.isWithin, (Operation.cuts_ahead cut).ordered, upTo] at bad
    exact ⟨late, (Operation.cuts_of_exhausted (sound.isExhausted late) cut).1⟩
  · rintro ⟨late, empty⟩
    refine ⟨⟨start, start⟩, ?_, by simp [Span.isWithin, late]⟩
    have here : ⟨start, start⟩ ∈ session.cursor.cuts 0 :=
      Cursor.mem_cuts.mpr ⟨Nat.zero_le _, by rw [sound.beyond late, Nat.add_zero]⟩
    rcases empty with rfl | rfl <;> exact here

theorem perform_eq (sound : session.Sound bytes start) (fine : bytes.length < start → ¬operation.TakesNothing) :
    session.perform operation = .ofRead bytes (operation.read session.cursor) := by
  cases went : (session.perform operation).next? with
  | none =>
    obtain ⟨late, empty⟩ := sound.breaks_iff.mp went
    exact absurd empty (fine late)
  | some next => rw [(perform_of_next? went).1, sound.bytes_eq]

theorem after_breaks_iff (sound : session.Sound bytes start) :
    session.after operations = none ↔
      bytes.length < start ∧ ∃ operation ∈ operations, operation.TakesNothing := by
  induction operations generalizing session with
  | nil => simp [Session.after]
  | cons operation rest ih =>
    simp only [Session.after, List.mem_cons, exists_eq_or_imp]
    cases went : (session.perform operation).next? with
    | none =>
      obtain ⟨late, empty⟩ := sound.breaks_iff.mp went
      exact iff_of_true rfl ⟨late, .inl empty⟩
    | some next =>
      rw [Option.bind_some, ih (sound.perform went)]
      have kept : bytes.length < start → ¬operation.TakesNothing := fun late empty => by
        rw [sound.breaks_iff.mpr ⟨late, empty⟩] at went
        cases went
      exact and_congr_right fun late => (or_iff_right (kept late)).symm

end Sound

/-- Wherever a session is placed, it breaks just if that is past the end and no bytes at all are asked for. The position
stays where it was placed then, and up to the end of the bytes otherwise; each cut is within the bytes, except for the
empty one that breaks the session. -/
theorem placed_breaks_iff (bytes : List UInt8) (start : Nat) (operations : List Operation) :
    ((placed bytes start).after operations = none ↔
      bytes.length < start ∧ ∃ operation ∈ operations, operation.TakesNothing) ∧
    ∀ session, (placed bytes start).after operations = some session →
      session.cursor.position ≤ max start bytes.length ∧
      ∀ operation : Operation, ∀ span ∈ operation.cuts session.cursor, span.start ≤ span.stop ∧
        (span.stop ≤ bytes.length ∨ bytes.length < start ∧ operation.TakesNothing ∧ span = ⟨start, start⟩) := by
  have placement := Sound.placed bytes start
  refine ⟨placement.after_breaks_iff, fun session reached => ?_⟩
  have sound := placement.after reached
  rcases Nat.lt_or_ge bytes.length start with late | early
  · refine ⟨sound.beyond late ▸ Nat.le_max_left _ _, fun operation span cut => ?_⟩
    obtain ⟨empty, rfl⟩ := Operation.cuts_of_exhausted (sound.isExhausted late) cut
    exact ⟨Nat.le_refl _, .inr ⟨late, empty, by rw [sound.beyond late]⟩⟩
  · refine ⟨Nat.le_trans (sound.inside early) (Nat.le_max_right _ _), fun operation span cut => ?_⟩
    exact ⟨(Operation.cuts_ahead cut).ordered, .inl (sound.stop_le early cut)⟩

-- Past the end there is nothing left, so nothing seems to be just what can be cut out.
theorem empty_cut_breaks :
    (placed [10, 11, 12] 4).cursor.remaining = 0 ∧
      Operation.cuts (.take 0) (placed [10, 11, 12] 4).cursor = [⟨4, 4⟩] ∧
      Span.isWithin ⟨4, 4⟩ [10, 11, 12] = false ∧
      (placed [10, 11, 12] 4).perform (.take 0) = .broken ⟨4, 4⟩ :=
  ⟨rfl, rfl, rfl, rfl⟩

end Session

end PhaseCheck
