import PhaseCheck.Descriptor.Parser

set_option autoImplicit false

namespace PhaseCheck

namespace ClassName

theorem not_mem_swap {old new : Char} (other : new ≠ old) (text : String) : old ∉ (swap old new text).toList := by
  intro present
  simp only [swap, String.toList_ofList, List.mem_map] at present
  obtain ⟨c, _, same⟩ := present
  split at same
  · exact other same
  · exact absurd same ‹_›

theorem dot_not_mem_toInternal (name : ClassName) : '.' ∉ name.toInternal.toList :=
  not_mem_swap (by decide) name.text

theorem swap_swap {old new : Char} {text : String} (absent : new ∉ text.toList) :
    swap new old (swap old new text) = text := by
  -- The text has no `new` of its own, so every one in the swapped text comes from an `old`.
  have back : ∀ c ∈ text.toList,
      (if (if c = old then new else c) = new then old else if c = old then new else c) = c := by
    intro c present
    by_cases swapped : c = old
    · simp [swapped]
    · have other : c ≠ new := fun same => absent (same ▸ present)
      simp [swapped, other]
  rw [swap, swap, String.toList_ofList, List.map_map]
  have same : text.toList.map _ = text.toList := List.map_congr_left back |>.trans (List.map_id' _)
  exact (congrArg String.ofList same).trans String.ofList_toList

theorem swap_toInternal (name : ClassName) : swap '/' '.' name.toInternal = name.text :=
  swap_swap name.dotted

theorem ofDotted_text (name : ClassName) : ofDotted name.text = .ok name := by
  rw [ofDotted, dif_neg name.nonempty, dif_neg name.dotted]

theorem ofInternal_toInternal (name : ClassName) : ofInternal name.toInternal = .ok name := by
  rw [ofInternal, if_neg name.dot_not_mem_toInternal, swap_toInternal, ofDotted_text]

theorem mem_toInternal {name : ClassName} {c : Char} (present : c ∈ name.toInternal.toList) :
    c = '/' ∨ c ∈ name.text.toList := by
  simp only [toInternal, swap, String.toList_ofList, List.mem_map] at present
  obtain ⟨original, within, same⟩ := present
  split at same
  · exact .inl same.symm
  · exact .inr (same ▸ within)

end ClassName

namespace FieldType

def nameChars : FieldType → List Char
  | .base _ => []
  | .object name => name.text.toList
  | .array element => element.nameChars

/-- A type whose descriptor can be told from what follows it. -/
def Writable (type : FieldType) : Prop :=
  type.dimensions ≤ maxDimensions ∧ ';' ∉ type.nameChars

theorem chars_eq (type : FieldType) :
    type.chars = List.replicate type.dimensions '[' ++ type.innermost.chars := by
  induction type with
  | base | object => rfl
  | array element ih => rw [chars, ih]; rfl

theorem readElement_base (inArray : Bool) (type : BaseType) (rest : List Char) :
    readElement inArray (type.letter :: rest) = .ok ⟨.base type, byteSize [type.letter], rest⟩ := by
  cases type <;> rfl

theorem readClass_chars {name : ClassName} (closed : ';' ∉ name.text.toList) (rest : List Char) :
    readClass (name.toInternal.toList ++ ';' :: rest) = .ok ⟨.object name, byteSize (chars (.object name)), rest⟩ := by
  have inside : ∀ c ∈ name.toInternal.toList, decide (c ≠ ';') = true := by
    intro c present
    rw [decide_eq_true_iff]
    rintro rfl
    rcases ClassName.mem_toInternal present with slash | within
    · cases slash
    · exact closed within
  rw [readClass, List.dropWhile_append_of_pos inside, List.takeWhile_append_of_pos inside]
  have letter : 'L'.utf8Size = 1 := rfl
  have semicolon : ';'.utf8Size = 1 := rfl
  simp [ClassName.ofInternal_toInternal, chars, letter, semicolon, Nat.add_assoc]

theorem readElement_innermost (inArray : Bool) {type : FieldType} (closed : ';' ∉ type.nameChars)
    (rest : List Char) : readElement inArray (type.innermost.chars ++ rest) =
      .ok ⟨type.innermost, byteSize type.innermost.chars, rest⟩ := by
  induction type with
  | base type => exact readElement_base inArray type rest
  | object name => simpa [innermost, chars, readElement] using readClass_chars closed rest
  | array element ih => exact ih closed

theorem innermost_chars_head (type : FieldType) : ∀ c ∈ type.innermost.chars.head?, c ≠ '[' := by
  induction type with
  | base type => cases type <;> simp [innermost, chars, BaseType.letter]
  | object name => simp [innermost, chars]
  | array element ih => exact ih

theorem innermost_chars_ne_nil (type : FieldType) : type.innermost.chars ≠ [] := by
  induction type with
  | base | object => simp [innermost, chars]
  | array element ih => exact ih

theorem byteSize_chars (type : FieldType) : byteSize type.chars = type.dimensions + byteSize type.innermost.chars := by
  induction type with
  | base | object => simp [dimensions, innermost]
  | array element ih =>
    have bracket : '['.utf8Size = 1 := rfl
    simp only [chars, dimensions, innermost, byteSize_cons, ih, bracket]
    omega

theorem read_chars {type : FieldType} (writable : type.Writable) (rest : List Char) :
    read (type.chars ++ rest) = .ok ⟨type, byteSize type.chars, rest⟩ := by
  obtain ⟨first, others, split⟩ := List.exists_cons_of_ne_nil type.innermost_chars_ne_nil
  have notArray : first ≠ '[' := type.innermost_chars_head first (by simp [split])
  -- The element does not start with a bracket, so exactly the dimensions are taken off.
  have brackets : ∀ c ∈ List.replicate type.dimensions '[', decide (c = '[') = true := by simp
  have element := readElement_innermost (decide (0 < type.dimensions)) writable.2 rest
  rw [byteSize_chars, chars_eq]
  rw [split] at element ⊢
  rw [List.append_assoc, read, List.takeWhile_append_of_pos brackets,
    List.dropWhile_append_of_pos brackets]
  simp only [List.cons_append] at element ⊢
  simp [notArray, element, Nat.not_lt.mpr writable.1, arrays_dimensions_innermost]

theorem parse_render {type : FieldType} (writable : type.Writable) : parse type.render = .ok type := by
  have taken := read_chars writable []
  rw [List.append_nil] at taken
  rw [parse, DescriptorReader.whole, render, String.toList_ofList, taken]
  exact if_pos rfl

theorem chars_ne_nil (type : FieldType) : type.chars ≠ [] := by
  cases type <;> simp [chars]

theorem readAll_chars {types : List FieldType} (writable : ∀ type ∈ types, type.Writable) :
    readAll (types.flatMap chars) = .ok types := by
  induction types with
  | nil => simp [readAll]
  | cons type rest ih =>
    have others := ih fun other later => writable other (List.mem_cons_of_mem _ later)
    have taken := read_chars (writable type (List.mem_cons_self ..)) (rest.flatMap chars)
    have nonempty : type.chars ++ rest.flatMap chars ≠ [] := by simp [chars_ne_nil]
    rw [List.flatMap_cons, readAll, if_neg nonempty]
    split
    next failed => rw [taken] at failed; cases failed
    next found =>
      rw [taken] at found
      cases found
      simp [others]

theorem paren_not_mem_chars {type : FieldType} {c : Char} (paren : c = '(' ∨ c = ')') (outside : c ∉ type.nameChars) :
    c ∉ type.chars := by
  induction type with
  | base type => rcases paren with rfl | rfl <;> cases type <;> decide
  | object name =>
    intro present
    have inName : c ∈ name.toInternal.toList := by
      rcases paren with rfl | rfl <;> simpa [chars] using present
    rcases ClassName.mem_toInternal inName with rfl | within
    · simp at paren
    · exact outside within
  | array element ih =>
    intro present
    rcases List.mem_cons.mp present with rfl | inside
    · simp at paren
    · exact ih outside inside

end FieldType

namespace MethodType

def parts (type : MethodType) : List FieldType :=
  type.parameters ++ type.result.toList

def Writable (type : MethodType) : Prop :=
  ∀ part ∈ type.parts, part.Writable ∧ '(' ∉ part.nameChars ∧ ')' ∉ part.nameChars

def resultChars (type : MethodType) : List Char :=
  (type.result.map FieldType.chars).getD ['V']

section

variable {type : MethodType} (writable : type.Writable)

include writable

theorem paren_not_mem_parts {c : Char} (paren : c = '(' ∨ c = ')') {part : FieldType} (present : part ∈ type.parts) :
    c ∉ part.chars := by
  refine FieldType.paren_not_mem_chars paren ?_
  rcases paren with rfl | rfl
  · exact (writable part present).2.1
  · exact (writable part present).2.2

theorem paren_not_mem_parameters {c : Char} (paren : c = '(' ∨ c = ')') :
    c ∉ type.parameters.flatMap FieldType.chars := by
  intro present
  obtain ⟨part, within, inside⟩ := List.mem_flatMap.mp present
  exact paren_not_mem_parts writable paren (List.mem_append_left _ within) inside

theorem paren_not_mem_result {c : Char} (paren : c = '(' ∨ c = ')') : c ∉ type.resultChars := by
  unfold resultChars
  cases shape : type.result with
  | none => rcases paren with rfl | rfl <;> decide
  | some part => exact paren_not_mem_parts writable paren (List.mem_append_right _ (by simp [shape]))

theorem readResult_chars : readResult type.resultChars = .ok type.result := by
  unfold resultChars
  cases shape : type.result with
  | none => rfl
  | some part =>
    have here : part.Writable := (writable part (List.mem_append_right _ (by simp [shape]))).1
    have taken := FieldType.read_chars here []
    have notVoid : part.chars ≠ ['V'] := by
      cases part with
      | base base => cases base <;> decide
      | object | array => simp [FieldType.chars]
    rw [List.append_nil] at taken
    simp [readResult, notVoid, FieldType.chars_ne_nil, taken]

theorem read_chars : read type.chars = .ok ⟨type, byteSize type.chars, []⟩ := by
  have shape : type.chars = '(' :: (type.parameters.flatMap FieldType.chars ++ ')' :: type.resultChars) := rfl
  have opened : type.chars.count '(' = 1 := by
    simp [shape, List.count_eq_zero_of_not_mem (paren_not_mem_parameters writable (.inl rfl)),
      List.count_eq_zero_of_not_mem (paren_not_mem_result writable (.inl rfl))]
  have closed : type.chars.count ')' = 1 := by
    simp [shape, List.count_eq_zero_of_not_mem (paren_not_mem_parameters writable (.inr rfl)),
      List.count_eq_zero_of_not_mem (paren_not_mem_result writable (.inr rfl))]
  have inside : ∀ c ∈ type.parameters.flatMap FieldType.chars, decide (c ≠ ')') = true := by
    intro c present
    rw [decide_eq_true_iff]
    rintro rfl
    exact paren_not_mem_parameters writable (.inr rfl) present
  have parameters := FieldType.readAll_chars fun part within => (writable part (List.mem_append_left _ within)).1
  unfold read
  rw [if_neg (by simp [opened, closed]), shape]
  simp only [List.takeWhile_append_of_pos inside, List.dropWhile_append_of_pos inside]
  simp [parameters, readResult_chars writable]

theorem parse_render : parse type.render = .ok type := by
  rw [parse, DescriptorReader.whole, render, String.toList_ofList, read_chars writable]
  exact if_pos rfl

end

end MethodType

end PhaseCheck
