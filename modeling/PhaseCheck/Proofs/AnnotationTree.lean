import PhaseCheck.Proofs.ClassFile.RoundTrip
import PhaseCheck.AnnotationTree

set_option autoImplicit false

namespace PhaseCheck

open Reader

def largest : List Nat → Nat
  | [] => 0
  | first :: rest => if first ≤ largest rest then largest rest else first

theorem largest_le_iff {numbers : List Nat} {limit : Nat} :
    largest numbers ≤ limit ↔ ∀ number ∈ numbers, number ≤ limit := by
  induction numbers with
  | nil => simp [largest]
  | cons first rest ih =>
    rw [List.forall_mem_cons, ← ih, largest]
    split <;> omega

theorem lt_largest_iff {numbers : List Nat} {limit : Nat} :
    limit < largest numbers ↔ ∃ number ∈ numbers, limit < number := by
  rw [← Nat.not_le, largest_le_iff]
  simp

structure PooledType (pool : Pool) where
  index : UInt16
  name : ClassName
  writable : (FieldType.object name).Writable
  resolves : pool.text index = .ok (FieldType.object name).render

structure PooledName (pool : Pool) where
  index : UInt16
  text : String
  resolves : pool.text index = .ok text

structure NoteLayout (pool : Pool) (α : Type) where
  type : PooledType pool
  -- Elements are given by their places, so that there are as many as can be counted.
  count : UInt16
  names : Fin count.toNat → PooledName pool
  values : Fin count.toNat → α

inductive ValueLayout (pool : Pool) where
  | primitive (type : BaseType) (index : UInt16)
  | string (index : UInt16)
  | enum (type constant : UInt16)
  | class (index : UInt16)
  | nested (type : PooledType pool) (count : UInt16) (names : Fin count.toNat → PooledName pool)
      (values : Fin count.toNat → ValueLayout pool)
  | array (count : UInt16) (values : Fin count.toNat → ValueLayout pool)

def rowBytes {count : UInt16} (bytesOf : Fin count.toNat → List UInt8) : List UInt8 :=
  bigEndianBytes 2 count.toNat ++ (List.finRange count.toNat).flatMap bytesOf

def rowDepth {count : UInt16} (depthOf : Fin count.toNat → Nat) : Nat :=
  largest ((List.finRange count.toNat).map depthOf)

namespace NoteLayout

variable {pool : Pool} {α β : Type}

def map (change : α → β) (note : NoteLayout pool α) : NoteLayout pool β :=
  ⟨note.type, note.count, note.names, fun place => change (note.values place)⟩

def bytes (note : NoteLayout pool (List UInt8)) : List UInt8 :=
  bigEndianBytes 2 note.type.index.toNat ++
    rowBytes fun place => bigEndianBytes 2 (note.names place).index.toNat ++ note.values place

def named (retention : Retention) (note : NoteLayout pool α) : AnnotationOf α :=
  ⟨note.type.name, (List.finRange note.count.toNat).map fun place => ((note.names place).text, note.values place),
    retention⟩

end NoteLayout

namespace ValueLayout

variable {pool : Pool}

def bytes : ValueLayout pool → List UInt8
  | .primitive type index => type.letter.toUInt8 :: bigEndianBytes 2 index.toNat
  | .string index => 's'.toUInt8 :: bigEndianBytes 2 index.toNat
  | .enum type constant => 'e'.toUInt8 :: (bigEndianBytes 2 type.toNat ++ bigEndianBytes 2 constant.toNat)
  | .class index => 'c'.toUInt8 :: bigEndianBytes 2 index.toNat
  | .nested type count names values =>
    '@'.toUInt8 :: NoteLayout.bytes ⟨type, count, names, fun place => (values place).bytes⟩
  | .array _ values => '['.toUInt8 :: rowBytes fun place => (values place).bytes

def value (retention : Retention) : ValueLayout pool → ElementValue
  | .primitive type index => .primitive type index
  | .string index => .string index
  | .enum type constant => .enum type constant
  | .class index => .class index
  | .nested type count names values =>
    .nested (NoteLayout.named retention ⟨type, count, names, fun place => (values place).value retention⟩)
  | .array count values => .array ((List.finRange count.toNat).map fun place => (values place).value retention)

def depth : ValueLayout pool → Nat
  | .primitive .. | .string .. | .enum .. | .class .. => 0
  | .nested _ _ _ values | .array _ values => rowDepth (fun place => (values place).depth) + 1

end ValueLayout

abbrev AnnotationLayout (pool : Pool) := NoteLayout pool (ValueLayout pool)

namespace AnnotationLayout

variable {pool : Pool}

def bytes (layout : AnnotationLayout pool) : List UInt8 :=
  (layout.map ValueLayout.bytes).bytes

def tree (retention : Retention) (layout : AnnotationLayout pool) : AnnotationTree :=
  (layout.map (ValueLayout.value retention)).named retention

def depth (layout : AnnotationLayout pool) : Nat :=
  rowDepth fun place => (layout.values place).depth

end AnnotationLayout

theorem finRange_few (count : UInt16) : (List.finRange count.toNat).length < 2 ^ 16 := by
  rw [List.length_finRange]
  exact count.toNat_lt

section

variable {α β : Type} {read : Reader α} {items : List β} {bytesOf : β → List UInt8} {valueOf : β → α}
  {depthOf : β → Nat} {limit : Nat} {cause : FormatError}
  (reads : ∀ item, depthOf item ≤ limit → Reads read (bytesOf item) (valueOf item))

include reads

theorem counted_reads (few : items.length < 2 ^ 16) (shallow : largest (items.map depthOf) ≤ limit) :
    Reads (counted read) (bigEndianBytes 2 items.length ++ items.flatMap bytesOf) (items.map valueOf) :=
  .counted few fun item present => reads item (largest_le_iff.mp shallow _ (List.mem_map_of_mem present))

theorem counted_refuses (refuses : ∀ item, limit < depthOf item → Refuses read (bytesOf item) cause)
    (few : items.length < 2 ^ 16) (deep : limit < largest (items.map depthOf)) :
    Refuses (counted read) (bigEndianBytes 2 items.length ++ items.flatMap bytesOf) cause := by
  obtain ⟨_, listed, deeper⟩ := lt_largest_iff.mp deep
  obtain ⟨item, present, rfl⟩ := List.mem_map.mp listed
  -- What is not too deep is read, so that the reader gets to the first item that is.
  have either item := (Nat.lt_or_ge limit (depthOf item)).symm.imp (reads item) (refuses item)
  exact .counted few (fun item _ => either item) ⟨item, present, refuses item deeper⟩

end

section

variable {α : Type} {read : Reader α} {count : UInt16} {bytesOf : Fin count.toNat → List UInt8}
  {valueOf : Fin count.toNat → α} {depthOf : Fin count.toNat → Nat} {limit : Nat} {cause : FormatError}
  (reads : ∀ place, depthOf place ≤ limit → Reads read (bytesOf place) (valueOf place))

include reads

theorem row_reads (shallow : rowDepth depthOf ≤ limit) :
    Reads (counted read) (rowBytes bytesOf) ((List.finRange count.toNat).map valueOf) := by
  have reading := counted_reads reads (finRange_few count) shallow
  rwa [List.length_finRange] at reading

theorem row_refuses (refuses : ∀ place, limit < depthOf place → Refuses read (bytesOf place) cause)
    (deep : limit < rowDepth depthOf) : Refuses (counted read) (rowBytes bytesOf) cause := by
  have refusing := counted_refuses reads refuses (finRange_few count) deep
  rwa [List.length_finRange] at refusing

end

namespace NoteLayout

variable {pool : Pool} {α β : Type} {read : Reader α} {cause : FormatError}

theorem typeOf_render (type : PooledType pool) :
    AnnotationOf.typeOf (FieldType.object type.name).render = .ok type.name := by
  rw [AnnotationOf.typeOf, FieldType.parse_render type.writable]
  rfl

theorem element_reads (name : PooledName pool) {bytes : List UInt8} {value : α} (reads : Reads read bytes value) :
    Reads (do let name ← pool.text (← u16); return (name, ← read)) (bigEndianBytes 2 name.index.toNat ++ bytes)
      (name.text, value) :=
  (Reads.short name.index).andThen (.lifting name.resolves (reads.andReturn _))

theorem element_refuses (name : PooledName pool) {bytes : List UInt8} (refuses : Refuses read bytes cause) :
    Refuses (do let name ← pool.text (← u16); return (name, ← read)) (bigEndianBytes 2 name.index.toNat ++ bytes)
      cause :=
  .behind (.short name.index) (.lifting name.resolves refuses.andThen)

section

variable (retention : Retention) (note : NoteLayout pool β) {bytesOf : β → List UInt8} {valueOf : β → α}
  {depthOf : Fin note.count.toNat → Nat} {limit : Nat}
  (each : ∀ place, depthOf place ≤ limit → Reads read (bytesOf (note.values place)) (valueOf (note.values place)))

include each

theorem reads (shallow : rowDepth depthOf ≤ limit) :
    Reads (AnnotationOf.read pool retention read) (note.map bytesOf).bytes ((note.map valueOf).named retention) := by
  have elements place below := element_reads (note.names place) (each place below)
  refine (Reads.short note.type.index).andThen (.lifting note.type.resolves (.lifting (typeOf_render note.type) ?_))
  exact (row_reads elements shallow).andLast (.done _)

theorem refuses (failing : ∀ place, limit < depthOf place → Refuses read (bytesOf (note.values place)) cause)
    (deep : limit < rowDepth depthOf) :
    Refuses (AnnotationOf.read pool retention read) (note.map bytesOf).bytes cause := by
  have elements place below := element_reads (note.names place) (each place below)
  have stops place beyond := element_refuses (note.names place) (failing place beyond)
  refine .behind (.short note.type.index) (.lifting note.type.resolves (.lifting (typeOf_render note.type) ?_))
  exact (row_refuses elements stops deep).andThen

end

end NoteLayout

namespace ValueLayout

variable {pool : Pool} (retention : Retention)

theorem reads {levels : Nat} (layout : ValueLayout pool) (shallow : layout.depth ≤ levels) :
    Reads (ElementValue.read pool retention levels) layout.bytes (layout.value retention) := by
  induction layout generalizing levels with
  | primitive type index =>
    unfold ElementValue.read
    refine (Reads.byte _).andThen ?_
    cases type <;> exact (Reads.short index).andReturn _
  | string index =>
    unfold ElementValue.read
    exact (Reads.byte _).andThen ((Reads.short index).andReturn _)
  | enum type constant =>
    unfold ElementValue.read
    exact (Reads.byte _).andThen ((Reads.short type).andThen ((Reads.short constant).andReturn _))
  | «class» index =>
    unfold ElementValue.read
    exact (Reads.byte _).andThen ((Reads.short index).andReturn _)
  | nested type count names values ih =>
    cases levels with
    | zero => exact absurd shallow (Nat.not_succ_le_zero _)
    | succ levels =>
      unfold ElementValue.read
      refine (Reads.byte _).andThen (.andReturn ?_ _)
      exact NoteLayout.reads retention ⟨type, count, names, values⟩ (fun place => ih place)
        (Nat.le_of_succ_le_succ shallow)
  | array count values ih =>
    cases levels with
    | zero => exact absurd shallow (Nat.not_succ_le_zero _)
    | succ levels =>
      unfold ElementValue.read
      refine (Reads.byte _).andThen (.andReturn ?_ _)
      exact row_reads (fun place => ih place) (Nat.le_of_succ_le_succ shallow)

theorem refuses {levels : Nat} (layout : ValueLayout pool) (deep : levels < layout.depth) :
    Refuses (ElementValue.read pool retention levels) layout.bytes .nestedTooDeep := by
  induction layout generalizing levels with
  | primitive | string | enum | «class» => exact absurd deep (Nat.not_lt_zero _)
  | nested type count names values ih =>
    unfold ElementValue.read
    refine .behind (.byte _) ?_
    cases levels with
    | zero => exact .failed .nestedTooDeep _
    | succ levels =>
      exact (NoteLayout.refuses retention ⟨type, count, names, values⟩ (fun place => reads retention (values place))
        (fun place => ih place) (Nat.lt_of_succ_lt_succ deep)).andThen
  | array count values ih =>
    unfold ElementValue.read
    refine .behind (.byte _) ?_
    cases levels with
    | zero => exact .failed .nestedTooDeep _
    | succ levels =>
      exact (row_refuses (fun place => reads retention (values place)) (fun place => ih place)
        (Nat.lt_of_succ_lt_succ deep)).andThen

end ValueLayout

namespace AnnotationLayout

variable {pool : Pool} (retention : Retention) (layout : AnnotationLayout pool)

theorem reads (shallow : layout.depth ≤ ElementValue.maxDepth) :
    Reads (AnnotationTree.read pool retention) layout.bytes (layout.tree retention) :=
  NoteLayout.reads retention layout (fun place => ValueLayout.reads retention (layout.values place)) shallow

theorem refuses (deep : ElementValue.maxDepth < layout.depth) :
    Refuses (AnnotationTree.read pool retention) layout.bytes .nestedTooDeep :=
  NoteLayout.refuses retention layout (fun place => ValueLayout.reads retention (layout.values place))
    (fun place => ValueLayout.refuses retention (layout.values place)) deep

end AnnotationLayout

theorem Retention.ofAttributeName?_attributeName (retention : Retention) :
    ofAttributeName? retention.attributeName = some retention := by
  cases retention <;> decide

namespace AnnotationTree

/-- Annotations that were written are read back, unless arrays and annotations nest more than 64 deep in one of them. -/
theorem ofAttribute_bytes (pool : Pool) (retention : Retention) (notes : Counted (AnnotationLayout pool)) :
    ofAttribute pool ⟨retention.attributeName, notes.bytes AnnotationLayout.bytes⟩ =
      if largest (notes.items.map AnnotationLayout.depth) ≤ 64 then
        .ok (notes.items.map (AnnotationLayout.tree retention))
      else .error .nestedTooDeep := by
  simp only [ofAttribute, Retention.ofAttributeName?_attributeName]
  split
  next shallow => exact (counted_reads (AnnotationLayout.reads retention) notes.few shallow).whole
  next deep =>
    have refusing := counted_refuses (AnnotationLayout.reads retention) (AnnotationLayout.refuses retention) notes.few
      (Nat.lt_of_not_le deep)
    exact refusing.whole

def towerPool : Pool :=
  .ofConstants [.text "LN;", .text "value"]

def towerType : PooledType towerPool :=
  ⟨1, ⟨"N", by decide, by decide⟩, ⟨by decide, by decide⟩, Pool.text_ofConstants (by decide) ⟨1, by decide⟩⟩

def towerName : PooledName towerPool :=
  ⟨2, "value", Pool.text_ofConstants (by decide) ⟨2, by decide⟩⟩

def tower : Nat → ValueLayout towerPool
  | 0 => .string 2
  | height + 1 => .array 1 fun _ => .nested towerType 1 (fun _ => towerName) fun _ => tower height

def towerNote (value : ValueLayout towerPool) : AnnotationLayout towerPool :=
  ⟨towerType, 1, fun _ => towerName, fun _ => value⟩

theorem rowDepth_one (depth : Nat) : rowDepth (fun _ : Fin (1 : UInt16).toNat => depth) = depth := by
  show (if depth ≤ 0 then 0 else depth) = depth
  split <;> omega

theorem depth_tower (height : Nat) : (tower height).depth = 2 * height := by
  induction height with
  | zero => rfl
  | succ height ih =>
    simp only [tower, ValueLayout.depth, rowDepth_one, ih]
    omega

theorem depth_towerNote (value : ValueLayout towerPool) : (towerNote value).depth = value.depth :=
  rowDepth_one value.depth

theorem ofAttribute_bytes_tower :
    ofAttribute towerPool ⟨"RuntimeVisibleAnnotations", Counted.bytes AnnotationLayout.bytes
      ⟨[towerNote (tower 32)], by decide⟩⟩ = .ok [AnnotationLayout.tree .visible (towerNote (tower 32))] ∧
    ofAttribute towerPool ⟨"RuntimeInvisibleAnnotations", Counted.bytes AnnotationLayout.bytes
      ⟨[towerNote (tower 32), towerNote (.array 1 fun _ => tower 32)], by decide⟩⟩ = .error .nestedTooDeep := by
  have lower : (towerNote (tower 32)).depth = 64 := by
    rw [depth_towerNote, depth_tower]
  have higher : (towerNote (.array 1 fun _ => tower 32)).depth = 65 := by
    rw [depth_towerNote, ValueLayout.depth, rowDepth_one, depth_tower]
  constructor
  · refine (ofAttribute_bytes towerPool .visible _).trans ?_
    simp only [List.map_cons, List.map_nil, lower]
    rfl
  · refine (ofAttribute_bytes towerPool .invisible _).trans ?_
    simp only [List.map_cons, List.map_nil, lower, higher]
    rfl

end AnnotationTree

end PhaseCheck
