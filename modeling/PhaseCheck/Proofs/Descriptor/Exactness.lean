import PhaseCheck.Proofs.Descriptor.RoundTrip

set_option autoImplicit false

namespace PhaseCheck

theorem not_mem_takeWhile_ne (mark : Char) (source : List Char) : mark ∉ source.takeWhile (· ≠ mark) := by
  intro present
  simpa using List.all_eq_true.mp List.all_takeWhile mark present

theorem eq_takeWhile_append_cons {mark first : Char} {source rest : List Char}
    (dropped : source.dropWhile (· ≠ mark) = first :: rest) : source = source.takeWhile (· ≠ mark) ++ mark :: rest := by
  have marked : first = mark := by
    have stops := List.head?_dropWhile_not (· ≠ mark) source
    rw [dropped] at stops
    simpa using stops
  subst marked
  rw [← dropped, List.takeWhile_append_dropWhile]

theorem BaseType.letter_of_ofLetter? {c : Char} {type : BaseType} (known : ofLetter? c = some type) :
    type.letter = c := by
  unfold ofLetter? at known
  split at known <;> cases known <;> rfl

namespace ClassName

theorem ofDotted_ok {text : String} {name : ClassName} (made : ofDotted text = .ok name) : name.text = text := by
  unfold ofDotted at made
  split at made
  · cases made
  · split at made
    · cases made
    · cases made
      rfl

theorem toInternal_of_ofInternal {text : String} {name : ClassName} (made : ofInternal text = .ok name) :
    name.toInternal = text := by
  unfold ofInternal at made
  split at made
  next => cases made
  next undotted => rw [toInternal, ofDotted_ok made, swap_swap undotted]

theorem mem_toInternal_of_mem {name : ClassName} {c : Char} (undotted : c ≠ '.') (present : c ∈ name.text.toList) :
    c ∈ name.toInternal.toList := by
  simp only [toInternal, swap, String.toList_ofList, List.mem_map]
  exact ⟨c, present, if_neg undotted⟩

end ClassName

namespace DescriptorReader

variable {α : Type} {read : DescriptorReader α} {text : String} {value : α}

theorem whole_eq_ok_iff : whole read text = .ok value ↔
    ∃ rest, read text.toList = .ok ⟨value, text.utf8ByteSize, rest⟩ := by
  unfold whole
  cases took : read text.toList with
  | error fault => simp
  | ok taken =>
    obtain ⟨found, used, rest⟩ := taken
    by_cases all : used = text.utf8ByteSize <;> simp [all]

theorem front_eq_ok_iff {used : Nat} : front read text = .ok (value, used) ↔
    ∃ rest, read text.toList = .ok ⟨value, used, rest⟩ := by
  unfold front
  cases took : read text.toList with
  | error fault => simp
  | ok taken => cases taken; simp

end DescriptorReader

namespace FieldType

theorem chars_arrays (depth : Nat) (type : FieldType) :
    (arrays depth type).chars = List.replicate depth '[' ++ type.chars := by
  induction depth with
  | zero => rfl
  | succ depth ih => simp [arrays, chars, ih, List.replicate_succ]

theorem dimensions_arrays (depth : Nat) (type : FieldType) :
    (arrays depth type).dimensions = depth + type.dimensions := by
  induction depth with
  | zero => simp [arrays]
  | succ depth ih =>
    simp only [arrays, dimensions, ih]
    omega

theorem nameChars_arrays (depth : Nat) (type : FieldType) : (arrays depth type).nameChars = type.nameChars := by
  induction depth with
  | zero => rfl
  | succ depth ih => exact ih

variable {source rest : List Char} {type : FieldType} {used : Nat}

theorem readClass_ok (taken : readClass source = .ok ⟨type, used, rest⟩) :
    ∃ name, type = .object name ∧ ';' ∉ name.toInternal.toList ∧ source = name.toInternal.toList ++ ';' :: rest := by
  unfold readClass at taken
  split at taken
  next => cases taken
  next closing after dropped =>
    simp only at taken
    split at taken
    next name made =>
      cases taken
      have internal : name.toInternal.toList = source.takeWhile (· ≠ ';') := by
        rw [ClassName.toInternal_of_ofInternal made, String.toList_ofList]
      refine ⟨name, rfl, ?_, ?_⟩
      · rw [internal]
        exact not_mem_takeWhile_ne ';' source
      · rw [internal]
        exact eq_takeWhile_append_cons dropped
    next => cases taken

theorem readElement_ok {inArray : Bool} (taken : readElement inArray source = .ok ⟨type, used, rest⟩) :
    type.dimensions = 0 ∧ ';' ∉ type.nameChars ∧ source = type.chars ++ rest := by
  unfold readElement at taken
  split at taken
  next => cases taken
  next after =>
    obtain ⟨name, rfl, closed, rfl⟩ := readClass_ok taken
    refine ⟨rfl, ?_, by simp [chars]⟩
    intro present
    exact closed (ClassName.mem_toInternal_of_mem (by decide) present)
  next c after _ =>
    split at taken
    next base known =>
      cases taken
      exact ⟨rfl, by simp [nameChars], by simp [chars, BaseType.letter_of_ofLetter? known]⟩
    next => cases taken

theorem writable_of_read (taken : read source = .ok ⟨type, used, rest⟩) :
    type.Writable ∧ source = type.chars ++ rest := by
  unfold read at taken
  simp only at taken
  split at taken
  next => cases taken
  next shallow =>
    split at taken
    next element _ after inner =>
      cases taken
      obtain ⟨flat, closed, split⟩ := readElement_ok inner
      have brackets : source.takeWhile (· = '[') = List.replicate (source.takeWhile (· = '[')).length '[' := by
        refine List.eq_replicate_iff.mpr ⟨rfl, fun c present => ?_⟩
        simpa using List.all_eq_true.mp List.all_takeWhile c present
      refine ⟨⟨?_, ?_⟩, ?_⟩
      · rw [dimensions_arrays, flat]
        omega
      · rwa [nameChars_arrays]
      · rw [chars_arrays, ← brackets, List.append_assoc, ← split, List.takeWhile_append_dropWhile]
    next => cases taken

theorem read_eq_ok_iff : read source = .ok ⟨type, used, rest⟩ ↔
    type.Writable ∧ source = type.chars ++ rest ∧ used = byteSize type.chars := by
  constructor
  · intro taken
    obtain ⟨writable, rfl⟩ := writable_of_read taken
    -- What was written is read back with its own size.
    have again := read_chars writable rest
    rw [taken] at again
    cases again
    exact ⟨writable, rfl, rfl⟩
  · rintro ⟨writable, rfl, rfl⟩
    exact read_chars writable rest

/-- What is under the dimensions is a base type, or a class with a name that is not empty and holds none of some
characters. -/
def Named (barred : List Char) : FieldType → Prop
  | .base _ => True
  | .object name => name.text ≠ "" ∧ ∀ c ∈ barred, c ∉ name.text.toList
  | .array element => element.Named barred

theorem named_cons_slash_iff (barred : List Char) (type : FieldType) :
    type.Named ('/' :: barred) ↔ ∀ c ∈ barred, c ∉ type.nameChars := by
  induction type with
  | base => simp [Named, nameChars]
  | object name =>
    have nonempty : name.text ≠ "" := fun nothing => name.nonempty (by simp [nothing])
    simp [Named, nameChars, nonempty, name.dotted]
  | array element ih => exact ih

theorem writable_iff (type : FieldType) : type.Writable ↔ type.dimensions ≤ 255 ∧ type.Named ['/', ';'] := by
  simp [Writable, maxDimensions, named_cons_slash_iff]

theorem toList_eq_chars_append_iff {text : String} {rest : List Char} {type : FieldType} :
    text.toList = type.chars ++ rest ↔ text = type.render ++ String.ofList rest := by
  rw [← String.toList_inj, String.toList_append, render, String.toList_ofList, String.toList_ofList]

theorem parseFront_exact (text : String) (type : FieldType) (used : Nat) :
    (parseFront text = .ok (type, used) ↔
      (type.dimensions ≤ 255 ∧ type.Named ['/', ';']) ∧ (∃ rest, text = type.render ++ rest) ∧
        used = type.render.utf8ByteSize) ∧
    (parse text = .ok type ↔ (type.dimensions ≤ 255 ∧ type.Named ['/', ';']) ∧ text = type.render) := by
  rw [← writable_iff]
  constructor
  · rw [parseFront, DescriptorReader.front_eq_ok_iff]
    simp only [read_eq_ok_iff, toList_eq_chars_append_iff]
    constructor
    · rintro ⟨rest, writable, split, rfl⟩
      exact ⟨writable, ⟨_, split⟩, rfl⟩
    · rintro ⟨writable, ⟨rest, rfl⟩, rfl⟩
      exact ⟨rest.toList, writable, by rw [String.ofList_toList], rfl⟩
  · rw [parse, DescriptorReader.whole_eq_ok_iff]
    simp only [read_eq_ok_iff, toList_eq_chars_append_iff]
    constructor
    · rintro ⟨rest, writable, split, used⟩
      -- Nothing is left if all bytes were used.
      have nothing : byteSize rest = 0 := by
        rw [split, String.utf8ByteSize_append] at used
        exact Nat.add_eq_left.mp used
      rw [byteSize_eq_zero_iff.mp nothing] at split
      exact ⟨writable, by simpa using split⟩
    · rintro ⟨writable, rfl⟩
      exact ⟨[], writable, by simp, rfl⟩

end FieldType

end PhaseCheck
