import Mathlib.Data.List.Find
import PhaseCheck.Proofs.Descriptor.Exactness
import PhaseCheck.Proofs.Verifier.Keys

set_option autoImplicit false

namespace PhaseCheck

namespace FieldType

inductive Walks : List Char → List FieldType → List Char → Prop
  | here (source : List Char) : Walks source [] source
  | turn {source middle rest : List Char} {type : FieldType} {used : Nat} {types : List FieldType} :
      read source = .ok ⟨type, used, middle⟩ → Walks middle types rest → Walks source (type :: types) rest

theorem Walks.eq_append {source rest : List Char} {types : List FieldType} (walks : Walks source types rest) :
    (∀ type ∈ types, type.Writable) ∧ source = types.flatMap chars ++ rest := by
  induction walks with
  | here source => simp
  | turn taken _ ih =>
    obtain ⟨writable, rfl, _⟩ := read_eq_ok_iff.mp taken
    obtain ⟨others, rfl⟩ := ih
    simpa [writable] using others

theorem walks_of_readAll {source : List Char} {types : List FieldType} (finished : readAll source = .ok types) :
    Walks source types [] := by
  fun_induction readAll source generalizing types with
  | case1 =>
    cases finished
    exact .here []
  | case2 source more fault failed => cases finished
  | case3 source more type used middle taken _ fault failed ih => cases finished
  | case4 source more type used middle taken _ others rest ih =>
    cases finished
    exact .turn taken (ih rest)

theorem mem_chars_of_mem_nameChars {type : FieldType} {c : Char} (undotted : c ≠ '.') (present : c ∈ type.nameChars) :
    c ∈ type.chars := by
  induction type with
  | base => cases present
  | object name => simp [chars, ClassName.mem_toInternal_of_mem undotted present]
  | array element ih => exact List.mem_cons_of_mem _ (ih present)

end FieldType

namespace MethodType

theorem result_of_readResult {source : List Char} (type : MethodType) (taken : readResult source = .ok type.result) :
    (∀ part ∈ type.result, part.Writable) ∧ source = type.resultChars := by
  unfold readResult at taken
  unfold resultChars
  split at taken
  next void =>
    rw [← Except.ok.inj taken]
    simp [void]
  next =>
    split at taken
    next => cases taken
    next =>
      split at taken
      next => cases taken
      next found read =>
        obtain ⟨part, used, rest⟩ := found
        obtain ⟨writable, rfl, rfl⟩ := FieldType.read_eq_ok_iff.mp read
        split at taken
        next all =>
          have nothing : rest = [] := by
            rw [byteSize_append] at all
            exact byteSize_eq_zero_iff.mp (Nat.add_eq_left.mp all.symm)
          rw [← Except.ok.inj taken]
          simp [writable, nothing]
        next => cases taken

theorem count_paren (type : MethodType) {c : Char} (paren : c = '(' ∨ c = ')') :
    type.chars.count c = 1 + (type.parts.flatMap FieldType.chars).count c := by
  have shape : type.chars = '(' :: (type.parameters.flatMap FieldType.chars ++ ')' :: type.resultChars) := rfl
  have void : type.resultChars.count c = (type.result.toList.flatMap FieldType.chars).count c := by
    unfold resultChars
    cases type.result with
    | none => rcases paren with rfl | rfl <;> rfl
    | some part => simp
  rw [shape, parts, List.flatMap_append, List.count_append, ← void]
  rcases paren with rfl | rfl <;> simp <;> omega

theorem paren_not_mem_nameChars {type : MethodType} {c : Char} (paren : c = '(' ∨ c = ')')
    (once : type.chars.count c = 1) {part : FieldType} (present : part ∈ type.parts) : c ∉ part.nameChars := by
  have none : (type.parts.flatMap FieldType.chars).count c = 0 := by
    have counted := type.count_paren paren
    omega
  have undotted : c ≠ '.' := by rcases paren with rfl | rfl <;> decide
  intro named
  have inside := FieldType.mem_chars_of_mem_nameChars undotted named
  exact List.count_eq_zero.mp none (List.mem_flatMap.mpr ⟨part, present, inside⟩)

theorem exists_cut {inner : List Char} (closed : ')' ∈ inner) :
    ∃ tail, inner = inner.takeWhile (· ≠ ')') ++ ')' :: tail ∧ (inner.dropWhile (· ≠ ')')).drop 1 = tail := by
  cases dropped : inner.dropWhile (· ≠ ')') with
  | nil =>
    have all : inner.takeWhile (· ≠ ')') = inner := by
      rw [← List.append_nil (inner.takeWhile _), ← dropped, List.takeWhile_append_dropWhile]
    have outside := not_mem_takeWhile_ne ')' inner
    rw [all] at outside
    exact absurd closed outside
  | cons first tail => exact ⟨tail, eq_takeWhile_append_cons dropped, rfl⟩

theorem writable_of_read {source rest : List Char} {type : MethodType} {used : Nat}
    (taken : read source = .ok ⟨type, used, rest⟩) : type.Writable ∧ source = type.chars := by
  unfold read at taken
  split at taken
  next => cases taken
  next balanced =>
    obtain ⟨opened, closed⟩ : source.count '(' = 1 ∧ source.count ')' = 1 := by simpa using balanced
    split at taken
    next inner =>
      split at taken
      next => cases taken
      next parameters walked =>
        split at taken
        next => cases taken
        next result returned =>
          cases taken
          have closing : ')' ∈ inner := by
            rw [List.count_cons_of_ne (by decide)] at closed
            exact List.count_pos_iff.mp (by omega)
          obtain ⟨tail, cut, after⟩ := exists_cut closing
          obtain ⟨writable, split⟩ := (FieldType.walks_of_readAll walked).eq_append
          obtain ⟨returns, ending⟩ := result_of_readResult ⟨parameters, result⟩ returned
          have same : '(' :: inner = chars ⟨parameters, result⟩ := by
            rw [cut, split, ← after, ending, List.append_nil]
            rfl
          -- The two that were counted are those around the parameters, so none is left for the name of a class.
          rw [same] at opened closed
          refine ⟨fun part present => ⟨?_, ?_, ?_⟩, same⟩
          · rcases List.mem_append.mp present with parameter | last
            · exact writable part parameter
            · exact returns part (by simpa using last)
          · exact paren_not_mem_nameChars (.inl rfl) opened present
          · exact paren_not_mem_nameChars (.inr rfl) closed present
    next => cases taken

theorem parse_eq_ok_iff {text : String} {type : MethodType} :
    parse text = .ok type ↔ type.Writable ∧ text = type.render := by
  rw [parse, DescriptorReader.whole_eq_ok_iff, ← String.toList_inj, render, String.toList_ofList]
  constructor
  · rintro ⟨rest, taken⟩
    exact writable_of_read taken
  · rintro ⟨writable, same⟩
    obtain rfl : text = String.ofList type.chars := by rw [← same, String.ofList_toList]
    refine ⟨[], ?_⟩
    rw [same]
    exact read_chars writable

theorem eq_iff_of_parse {text other : String} {type otherType : MethodType} (parsed : parse text = .ok type)
    (parsedOther : parse other = .ok otherType) : text = other ↔ type = otherType := by
  obtain ⟨_, rfl⟩ := parse_eq_ok_iff.mp parsedOther
  constructor
  · rintro rfl
    rw [parsed] at parsedOther
    exact Except.ok.inj parsedOther
  · rintro rfl
    exact (parse_eq_ok_iff.mp parsed).2

theorem writable_iff (type : MethodType) :
    type.Writable ↔ ∀ part ∈ type.parts, part.dimensions ≤ 255 ∧ part.Named ['/', ';', '(', ')'] := by
  simp [Writable, FieldType.Writable, FieldType.maxDimensions, FieldType.named_cons_slash_iff, and_assoc]

end MethodType

theorem Method.read_type (pool : Pool) (owner : ClassName) :
    Reader.Yields (Method.read pool owner) fun method => MethodType.parse method.descriptor = .ok method.type := by
  refine .andThen fun _ => .andThen fun _ => .andThen fun _ => .andThen fun _ => .andThen fun descriptor => ?_
  have parses : Reader.Yields (liftM ((MethodType.parse descriptor).mapError FormatError.badDescriptor))
      fun type => MethodType.parse descriptor = .ok type :=
    .lifted fun _ made => ok_of_mapError_ok made
  exact .using_first parses fun _ parsed => .andThen fun _ => .andThen fun _ => .done parsed

theorem ClassFile.parse_descriptor {bytes : List UInt8} {file : ClassFile} (decoded : ClassFile.decode bytes = .ok file)
    {method : Method} (declared : method ∈ file.methods) : MethodType.parse method.descriptor = .ok method.type :=
  (ClassFile.read_methods fun pool owner => Method.read_type pool owner).whole decoded method declared

theorem LoadedClass.find?_eq_find?_key {artifact : Artifact} (loaded : LoadedClass artifact) (reference : MethodRef)
    {descriptor : String} (parsed : MethodType.parse descriptor = .ok reference.type) :
    loaded.find? reference =
      loaded.methods.find? fun item => item.key = ⟨loaded.name, reference.name, descriptor⟩ := by
  obtain ⟨bytes, _, decoded⟩ := loaded.decode_bytes_eq
  -- For a method of the class, either test asks for its name and its descriptor.
  refine List.find?_congr fun item listed => ?_
  obtain rfl := LoadedClass.mem_methods listed
  have same := MethodType.eq_iff_of_parse (ClassFile.parse_descriptor decoded item.declared) parsed
  simp [DeclaredMethod.key, Method.key, item.owner.method_owner item.declared, same]

theorem MethodType.parse_exact :
    (∀ (text : String) (type : MethodType), parse text = .ok type ↔
      text = type.render ∧ ∀ part ∈ type.parts, part.dimensions ≤ 255 ∧ part.Named ['/', ';', '(', ')']) ∧
    (∀ {bytes bytesOther : List UInt8} {file other : ClassFile},
      ClassFile.decode bytes = .ok file → ClassFile.decode bytesOther = .ok other →
      ∀ first ∈ file.methods, ∀ second ∈ other.methods,
        (first.descriptor = second.descriptor ↔ first.type = second.type)) ∧
    (∀ {artifact : Artifact} (loaded : LoadedClass artifact) (reference : MethodRef) (descriptor : String),
      parse descriptor = .ok reference.type → loaded.find? reference =
        loaded.methods.find? fun item => item.key = ⟨loaded.name, reference.name, descriptor⟩) ∧
    (∀ (text : String) (type : MethodType), parse text = .ok type →
      ∃ inner tail, text.toList = '(' :: (inner ++ ')' :: tail) ∧ ')' ∉ inner ∧
        FieldType.readAll inner = .ok type.parameters ∧ FieldType.Walks inner type.parameters [] ∧
        ∀ types rest, FieldType.Walks inner types rest → inner = types.flatMap FieldType.chars ++ rest) := by
  refine ⟨fun text type => ?_, ?_, ?_, ?_⟩
  · rw [parse_eq_ok_iff, writable_iff, and_comm]
  · intro bytes bytesOther file other decoded decodedOther first declared second declaredOther
    exact eq_iff_of_parse (ClassFile.parse_descriptor decoded declared)
      (ClassFile.parse_descriptor decodedOther declaredOther)
  · intro artifact loaded reference descriptor parsed
    exact loaded.find?_eq_find?_key reference parsed
  · intro text type parsed
    obtain ⟨writable, rfl⟩ := parse_eq_ok_iff.mp parsed
    have walked := FieldType.readAll_chars fun part within => (writable part (List.mem_append_left _ within)).1
    refine ⟨type.parameters.flatMap FieldType.chars, type.resultChars, ?_, ?_, walked, ?_, ?_⟩
    · exact String.toList_ofList
    · exact paren_not_mem_parameters writable (.inr rfl)
    · exact FieldType.walks_of_readAll walked
    · exact fun types rest walks => walks.eq_append.2

def overloadsFile : List UInt8 :=
  [0xCA, 0xFE, 0xBA, 0xBE, 0, 0, 0, 52, 0, 8, 1, 0, 1, 79, 7, 0, 1, 1, 0, 1, 80, 7, 0, 3, 1, 0, 1, 109,
    1, 0, 3, 40, 41, 86, 1, 0, 4, 40, 73, 41, 86, 0, 0, 0, 2, 0, 4, 0, 0, 0, 0, 0, 2,
    0, 0, 0, 5, 0, 6, 0, 0, 0, 0, 0, 5, 0, 7, 0, 0, 0, 0]

def overloadsName : ClassName := ⟨"O", by decide, by decide⟩

def overloadsArtifact : Artifact :=
  ClassStore.toArtifact ⟨[(overloadsName, overloadsFile)]⟩

theorem MethodType.parse_exact_overloads :
    ∃ (loaded : LoadedClass overloadsArtifact) (plain counted : Method) (inner tail : List Char),
      ClassFile.decode overloadsFile = .ok loaded.file ∧ loaded.file.methods = [plain, counted] ∧
      plain.descriptor = "()V" ∧ counted.descriptor = "(I)V" ∧ plain.type ≠ counted.type ∧
      parse "(I)V" = .ok counted.type ∧
      loaded.find? ⟨loaded.name, counted.name, counted.type, false⟩ =
        loaded.methods.find? (fun item => item.key = ⟨loaded.name, counted.name, "(I)V"⟩) ∧
      "(I)V".toList = '(' :: (inner ++ ')' :: tail) ∧ FieldType.Walks inner counted.type.parameters [] := by
  have checked : (match ClassFile.decode overloadsFile with
      | .ok file => decide (file.name = overloadsName ∧ file.methods.map (·.descriptor) = ["()V", "(I)V"])
      | .error _ => false) = true := by decide +kernel
  cases decoded : ClassFile.decode overloadsFile with
  | error cause => simp [decoded] at checked
  | ok file =>
    rw [decoded] at checked
    obtain ⟨named, listed⟩ := of_decide_eq_true checked
    obtain ⟨plain, others, methods, isPlain, rest⟩ := List.map_eq_cons_iff.mp listed
    obtain ⟨counted, none, rfl, isCounted, nothing⟩ := List.map_eq_cons_iff.mp rest
    obtain rfl := List.map_eq_nil_iff.mp nothing
    have found : overloadsArtifact.decode overloadsName = .ok file := by
      change (ClassFile.decode overloadsFile).mapError _ = _
      rw [decoded]
      rfl
    have parsed : parse "(I)V" = .ok counted.type := by
      rw [← isCounted]
      exact ClassFile.parse_descriptor decoded (by simp [methods])
    obtain ⟨_, apart, resolves, loops⟩ := parse_exact
    obtain ⟨inner, tail, shape, _, _, walks, _⟩ := loops _ _ parsed
    refine ⟨⟨file, Artifact.decode_name found named⟩, plain, counted, inner, tail, rfl, methods, isPlain, isCounted,
      ?_, parsed, resolves _ ⟨_, _, counted.type, _⟩ _ parsed, shape, walks⟩
    intro same
    have descriptors := (apart decoded decoded plain (by simp [methods]) counted (by simp [methods])).mpr same
    simp [isPlain, isCounted] at descriptors

end PhaseCheck
