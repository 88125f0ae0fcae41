import PhaseCheck.Proofs.ClassFile.Layout

set_option autoImplicit false

namespace PhaseCheck

open Reader

theorem HandleKind.ofByte_byte (kind : HandleKind) : HandleKind.ofByte kind.byte = .ok kind := by
  cases kind <;> rfl

theorem Constant.reads {constant : Constant} (encodable : constant.Encodable) (index : UInt16) :
    Reads (Constant.read index) constant.bytes constant := by
  cases constant with
  | text value => exact (Reads.byte 1).andThen ((Reads.text encodable).andReturn Constant.text)
  | integer value => exact (Reads.byte 3).andThen ((Reads.signedInt value).andReturn Constant.integer)
  | float bits => exact (Reads.byte 4).andThen ((Reads.int bits).andReturn Constant.float)
  | long value => exact (Reads.byte 5).andThen ((Reads.signedLong value).andReturn Constant.long)
  | double bits => exact (Reads.byte 6).andThen ((Reads.long bits).andReturn Constant.double)
  | «class» name => exact (Reads.byte 7).andThen ((Reads.short name).andReturn Constant.class)
  | string spelling => exact (Reads.byte 8).andThen ((Reads.short spelling).andReturn Constant.string)
  | field owner signature =>
    exact (Reads.byte 9).andThen
      ((Reads.short owner).andThen ((Reads.short signature).andReturn (Constant.field owner)))
  | method owner signature inInterface =>
    have both (inInterface : Bool) : Reads (do return Constant.method (← u16) (← u16) inInterface)
        (bigEndianBytes 2 owner.toNat ++ bigEndianBytes 2 signature.toNat) (.method owner signature inInterface) :=
      (Reads.short owner).andThen ((Reads.short signature).andReturn (Constant.method owner · inInterface))
    cases inInterface with
    | false => exact (Reads.byte 10).andThen (both false)
    | true => exact (Reads.byte 11).andThen (both true)
  | nameAndType name descriptor =>
    exact (Reads.byte 12).andThen
      ((Reads.short name).andThen ((Reads.short descriptor).andReturn (Constant.nameAndType name)))
  | methodHandle kind member =>
    exact (Reads.byte 15).andThen ((Reads.byte kind.byte).andThen
      (.lifting kind.ofByte_byte ((Reads.short member).andReturn (Constant.methodHandle kind))))
  | methodType descriptor => exact (Reads.byte 16).andThen ((Reads.short descriptor).andReturn Constant.methodType)
  | invokeDynamic bootstrap signature =>
    exact (Reads.byte 18).andThen
      ((Reads.short bootstrap).andThen ((Reads.short signature).andReturn (Constant.invokeDynamic bootstrap)))

theorem ClassName.eq_of_text {name other : ClassName} (same : name.text = other.text) : name = other := by
  cases name
  cases other
  cases same
  rfl

theorem Constant.toNat_slots (constant : Constant) : constant.slots.toNat = constant.room := by
  cases constant <;> rfl

theorem Constant.room_pos (constant : Constant) : 0 < constant.room := by
  rw [room]
  split <;> decide

namespace Pool

variable {constants : List Constant}

theorem get_ofConstants (fits : slotsOf Constant.room constants ≤ 65534) {index : UInt16} {constant : Constant} :
    (ofConstants constants).get index = .ok constant ↔ StandsAt constants index constant := by
  have wide : ∀ constant ∈ constants, 0 < constant.room := fun constant _ => constant.room_pos
  have small : 1 + slotsOf Constant.room constants ≤ 2 ^ 64 := by
    omega
  have found : (ofConstants constants).constants.get index.toUInt64 = .found constant ↔ _ :=
    SlotVec.get_eq_found_iff (SlotVec.ofElements_ascending wide small)
  rw [StandsAt, ← UInt16.toNat_toUInt64, ← SlotVec.places_ofElements wide small, SlotVec.mem_places_iff]
  refine Iff.trans ?_ found
  unfold get
  cases (ofConstants constants).constants.get index.toUInt64 <;> simp

theorem text_ofConstants (fits : slotsOf Constant.room constants ≤ 65534) {text : String}
    (reference : TextRef constants text) :
    (ofConstants constants).text reference.index = .ok text := by
  rw [Pool.text, (get_ofConstants fits).mpr reference.stands]
  rfl

theorem className_ofConstants (fits : slotsOf Constant.room constants ≤ 65534) (reference : ClassRef constants) :
    (ofConstants constants).className reference.index = .ok reference.name := by
  rw [className, (get_ofConstants fits).mpr reference.stands]
  simp only [bind, Except.bind, text_ofConstants fits reference.spelling, ClassName.ofInternal_toInternal]
  rfl

theorem memberName_ofConstants (fits : slotsOf Constant.room constants ≤ 65534) {name : MemberName}
    (reference : TextRef constants name.text) : (ofConstants constants).memberName reference.index = .ok name := by
  rw [memberName, text_ofConstants fits reference]
  simp only [bind, Except.bind, MemberName.ofString_text]
  rfl

theorem addAll_slots (constants : List Constant) :
    ((SlotVec.startingAt 1).addAll Constant.slots constants).2 = (ofConstants constants).constants := by
  have same : SlotVec.slotsBy Constant.slots = Constant.room := funext Constant.toNat_slots
  rw [SlotVec.addAll_startingAt, same]
  rfl

theorem fill_reads (encodable : ∀ constant ∈ constants, constant.Encodable) {count : UInt16} {vec : SlotVec Constant}
    (exact : vec.next.toNat + slotsOf Constant.room constants = count.toNat) :
    Reads (fill count vec) (constants.flatMap Constant.bytes) (vec.addAll Constant.slots constants).2 := by
  induction constants generalizing vec with
  | nil =>
    have full : ¬vec.next < count.toUInt64 := by
      rw [UInt64.lt_iff_toNat_lt, UInt16.toNat_toUInt64, ← exact]
      exact Nat.lt_irrefl _
    rw [fill, dif_neg full]
    exact Reads.done vec
  | cons constant rest ih =>
    rw [slotsOf] at exact
    have positive := constant.room_pos
    have more : vec.next < count.toUInt64 := by
      rw [UInt64.lt_iff_toNat_lt, UInt16.toNat_toUInt64]
      omega
    rw [fill, dif_pos more, List.flatMap_cons]
    refine (Constant.reads (encodable constant (List.mem_cons_self ..)) _).andThen ?_
    have next : (vec.push constant.slots constant).next.toNat + slotsOf Constant.room rest = count.toNat := by
      rw [toNat_next_push more, constant.toNat_slots]
      omega
    exact ih (fun other later => encodable other (List.mem_cons_of_mem _ later)) next

theorem reads (encodable : ∀ constant ∈ constants, constant.Encodable) (fits : slotsOf Constant.room constants ≤ 65534) :
    Reads Pool.read (bigEndianBytes 2 (1 + slotsOf Constant.room constants) ++ constants.flatMap Constant.bytes)
      (ofConstants constants) := by
  have small : 1 + slotsOf Constant.room constants < 2 ^ 16 := by omega
  have same := toNat_toUInt16_of_lt small
  have filling : Reads (fill (1 + slotsOf Constant.room constants).toUInt16 (.startingAt 1)) _ _ :=
    fill_reads encodable same.symm
  rw [addAll_slots] at filling
  refine (Reads.shortSize small).andThen (filling.andLast ?_)
  have ends : (ofConstants constants).constants.next = (1 + slotsOf Constant.room constants).toUInt16.toUInt64 := by
    apply UInt64.toNat_inj.mp
    rw [UInt16.toNat_toUInt64, same]
    exact UInt64.toNat_ofNat_of_lt' (Nat.lt_trans small (by decide))
  rw [if_pos ends]
  exact Reads.done (ofConstants constants)

end Pool

theorem ClassRef.index_ne_zero {constants : List Constant} (reference : ClassRef constants) : reference.index ≠ 0 := by
  intro zero
  have start := le_of_mem_slotted reference.stands
  simp [zero] at start

theorem LineRow.reads (row : LineRow) : Reads LineRow.read row.bytes row :=
  (Reads.short row.start).andThen ((Reads.short row.line).andReturn (LineRow.mk row.start))

theorem LineRow.table_reads (table : Counted LineRow) :
    Reads LineRow.readTable (table.bytes LineRow.bytes) table.items := by
  have reading := Reads.counted table.few fun row _ => row.reads
  rwa [List.map_id'] at reading

theorem LineRow.tables_decode (tables : List (Counted LineRow)) :
    (tables.map (Counted.bytes LineRow.bytes)).mapM readTable.whole = .ok (tables.map Counted.items) := by
  induction tables with
  | nil => rfl
  | cons table rest ih =>
    rw [List.map_cons, List.mapM_cons, (table_reads table).whole, ih]
    rfl

-- Attributes of other names in between do not matter, but the order of the tables does.
theorem LineRow.ofAttributes_eq {attributes : List Attribute} {tables : List (Counted LineRow)}
    (lined : payloads "LineNumberTable" attributes = tables.map (Counted.bytes LineRow.bytes)) :
    ofAttributes attributes = .ok (tables.flatMap Counted.items) := by
  have decoded : (attributes.filter (·.name = "LineNumberTable")).mapM (Attribute.decode readTable) =
      (payloads "LineNumberTable" attributes).mapM readTable.whole := by
    rw [payloads, List.mapM_map]
    rfl
  rw [ofAttributes, attributeName, decoded, lined, tables_decode]
  rfl

section

variable {constants : List Constant} (fits : slotsOf Constant.room constants ≤ 65534)

include fits

theorem AttributeLayout.reads (layout : AttributeLayout constants) :
    Reads (Attribute.read (.ofConstants constants)) layout.bytes layout.content := by
  refine (Reads.short layout.named.index).andThen (.lifting (Pool.text_ofConstants fits layout.named) ?_)
  have block : Reads (do let length ← u32; let info ← take length.toNat; return ⟨layout.content.name, info⟩)
    (bigEndianBytes 4 layout.content.info.length ++ (layout.content.info ++ [])) layout.content :=
      .block layout.fits (.done layout.content)
  rwa [List.append_nil] at block

theorem attributes_read (layouts : Counted (AttributeLayout constants)) :
    Reads (Attribute.readAll (.ofConstants constants)) (layouts.bytes AttributeLayout.bytes) (attributesOf layouts) :=
  .counted layouts.few fun layout _ => layout.reads fits

theorem ClassRef.reads (reference : ClassRef constants) :
    Reads (do (Pool.ofConstants constants).className (← u16)) (bigEndianBytes 2 reference.index.toNat) reference.name :=
  (Reads.short reference.index).andLast (.lifted (Pool.className_ofConstants fits reference))

theorem HandlerLayout.reads (layout : HandlerLayout constants) :
    Reads (Handler.read (.ofConstants constants)) layout.bytes layout.handler := by
  refine (Reads.short layout.start).andThen ((Reads.short layout.stop).andThen ((Reads.short layout.target).andThen
    ((Reads.short (ClassRef.optional layout.catches)).andLast ?_)))
  unfold HandlerLayout.handler
  cases layout.catches with
  | none => exact .done _
  | some reference =>
    have some : ClassRef.optional (some reference) = reference.index := rfl
    rw [some, if_neg reference.index_ne_zero]
    exact .lifting (Pool.className_ofConstants fits reference) (.done _)

theorem BodyLayout.reads (layout : BodyLayout constants) :
    Reads (Body.read (.ofConstants constants)) layout.bytes layout.body := by
  refine (Reads.short layout.maxStack).andThen ((Reads.short layout.maxLocals).andThen (.block layout.fits ?_))
  refine (Reads.counted layout.handlers.few fun handler _ => handler.reads fits).andThen ?_
  exact (attributes_read fits layout.attributes).andLast (.lifting (LineRow.ofAttributes_eq layout.lined) (.done _))

theorem Body.find_eq {attributes : List Attribute} {layout : Option (BodyLayout constants)}
    (coded : payloads "Code" attributes = (layout.map BodyLayout.bytes).toList) :
    Body.find (.ofConstants constants) attributes = .ok (layout.map BodyLayout.body) := by
  rw [Body.find, Attribute.find, attributeName]
  rw [payloads] at coded
  cases layout with
  | none =>
    have nothing := List.map_eq_nil_iff.mp coded
    rw [nothing]
    rfl
  | some layout =>
    obtain ⟨item, only, held⟩ := List.map_eq_singleton_iff.mp coded
    rw [only]
    simp only [Attribute.decode, held, (layout.reads fits).whole]
    rfl

theorem MemberLayout.reads_then {β : Type} {descriptor : String} {result : β}
    (layout : MemberLayout constants descriptor) {next : UInt16 → MemberName → String → Reader β}
    (second : Reads (next layout.access layout.name descriptor) (layout.attributes.bytes AttributeLayout.bytes) result) :
    Reads (do
      let access ← u16
      let name ← (Pool.ofConstants constants).memberName (← u16)
      let text ← (Pool.ofConstants constants).text (← u16)
      next access name text) layout.bytes result := by
  refine (Reads.short layout.access).andThen ((Reads.short layout.named.index).andThen ?_)
  refine .lifting (Pool.memberName_ofConstants fits layout.named) ((Reads.short layout.described.index).andThen ?_)
  exact .lifting (Pool.text_ofConstants fits layout.described) second

theorem FieldLayout.reads (owner : ClassName) (layout : FieldLayout constants) :
    Reads (Field.read (.ofConstants constants) owner) layout.member.bytes (layout.field owner) := by
  have parsed : (FieldType.parse layout.type.render).mapError FormatError.badDescriptor = .ok layout.type := by
    rw [FieldType.parse_render layout.writable]
    rfl
  refine layout.member.reads_then fits (.lifting parsed ?_)
  exact (attributes_read fits layout.member.attributes).andLast (.done _)

theorem MethodLayout.reads (owner : ClassName) (layout : MethodLayout constants) :
    Reads (Method.read (.ofConstants constants) owner) layout.member.bytes (layout.method owner) := by
  have parsed : (MethodType.parse layout.type.render).mapError FormatError.badDescriptor = .ok layout.type := by
    rw [MethodType.parse_render layout.writable]
    rfl
  refine layout.member.reads_then fits (.lifting parsed ?_)
  exact (attributes_read fits layout.member.attributes).andLast (.lifting (Body.find_eq fits layout.coded) (.done _))

end

namespace ClassLayout

theorem superclass_reads (layout : ClassLayout) :
    Reads (ClassFile.readSuperclass (.ofConstants layout.constants) layout.this.name)
      (bigEndianBytes 2 (ClassRef.optional layout.superclass).toNat) (layout.superclass.map ClassRef.name) := by
  refine (Reads.short _).andLast ?_
  cases above : layout.superclass with
  | none =>
    rw [if_neg (by simp [ClassRef.optional]), if_pos (ClassName.eq_of_text (layout.rooted above))]
    exact .done none
  | some reference =>
    have some : ClassRef.optional (some reference) = reference.index := rfl
    rw [some, if_pos reference.index_ne_zero]
    exact .lifting (Pool.className_ofConstants layout.fits reference) (.done _)

theorem magic_reads : Reads ClassFile.readMagic [0xCA, 0xFE, 0xBA, 0xBE] () := by
  refine Reads.andLast (Reads.int ClassFile.magic) ?_
  exact .done ()

theorem version_reads : Reads Version.read [0, 0, 0, 52] Version.supported :=
  (Reads.short 0).andThen ((Reads.short 52).andLast (.done _))

theorem reads (layout : ClassLayout) : Reads ClassFile.read layout.bytes layout.file := by
  refine magic_reads.andThen (version_reads.andThen ?_)
  -- The pool is read in one go, with its count.
  rw [← List.append_assoc]
  refine (Pool.reads layout.encodable layout.fits).andThen ((Reads.short layout.access).andThen ?_)
  refine (Reads.short layout.this.index).andThen (.lifting (Pool.className_ofConstants layout.fits layout.this) ?_)
  refine layout.superclass_reads.andThen ?_
  refine (Reads.counted layout.interfaces.few fun reference _ => reference.reads layout.fits).andThen ?_
  refine (Reads.counted layout.fields.few fun field _ => field.reads layout.fits layout.this.name).andThen ?_
  refine (Reads.counted layout.methods.few fun method _ => method.reads layout.fits layout.this.name).andThen ?_
  exact (attributes_read layout.fits layout.attributes).andLast (.done _)

/-- Decoding undoes laying out. Every constant is found at the slot where it stands, and nothing elsewhere. -/
theorem decode_bytes (layout : ClassLayout) :
    ClassFile.decode layout.bytes = .ok layout.file ∧
      ∀ index constant, layout.file.pool.get index = .ok constant ↔ StandsAt layout.constants index constant :=
  ⟨layout.reads.whole, fun _ _ => Pool.get_ofConstants layout.fits⟩

def rootConstants : List Constant :=
  [.text "java/lang/Object", .class 1, .text "<init>", .text "()V", .text "Code", .long (-2), .text "LineNumberTable"]

def rootLines : Counted LineRow := ⟨[⟨0, 37⟩], by decide⟩

def rootBody : BodyLayout rootConstants where
  maxStack := 0
  maxLocals := 1
  bytecode := [0xB1]
  fits := by decide
  handlers := ⟨[⟨0, 1, 0, none⟩], by decide⟩
  attributes := ⟨[⟨⟨"LineNumberTable", rootLines.bytes LineRow.bytes⟩, ⟨8, by decide⟩, by decide⟩], by decide⟩
  tables := [rootLines]
  lined := by decide

def rootClass : ClassLayout where
  constants := rootConstants
  encodable := by simp [rootConstants, Constant.Encodable]; decide
  fits := by decide
  access := 0xFFFF
  this := ⟨2, .object, ⟨1, by decide⟩, by decide⟩
  superclass := none
  rooted _ := rfl
  interfaces := ⟨[], by decide⟩
  fields := ⟨[], by decide⟩
  methods := ⟨[
    { type := ⟨[], none⟩
      writable := by simp [MethodType.Writable, MethodType.parts]
      member :=
        { access := 1
          name := ⟨"<init>", by decide, by simp [MemberName.separators]⟩
          named := ⟨3, by decide⟩
          described := ⟨4, by decide⟩
          attributes := ⟨[⟨⟨"Code", rootBody.bytes⟩, ⟨5, by decide⟩, by decide⟩], by decide⟩ }
      body := some rootBody
      coded := by decide }], by decide⟩
  attributes := ⟨[], by decide⟩

example : (ClassFile.decode rootClass.bytes).toOption.map (fun file => file.methods.map Method.body) =
    some [some ⟨0, 1, [0xB1], [⟨0, 1, 0, none⟩], [⟨0, 37⟩]⟩] := by decide +kernel

end ClassLayout

end PhaseCheck
