import PhaseCheck.Files.Directory
import PhaseCheck.Proofs.Descriptor.RoundTrip
import PhaseCheck.Proofs.Text.CodeUnits
import PhaseCheck.Proofs.Text.Lines

set_option autoImplicit false

namespace PhaseCheck

namespace ClassName

theorem swap_of_not_mem {old : Char} {text : String} (absent : old ∉ text.toList) (new : Char) :
    swap old new text = text := by
  have same : ∀ c ∈ text.toList, (if c = old then new else c) = c :=
    fun c present => if_neg fun swapped : c = old => absent (swapped ▸ present)
  rw [swap, List.map_congr_left same, List.map_id', String.ofList_toList]

end ClassName

namespace ModifiedUtf8

theorem encodeChars_nil : encodeChars [] = [] :=
  rfl

theorem encodeChars_append (chars others : List Char) :
    encodeChars (chars ++ others) = encodeChars chars ++ encodeChars others := by
  simp [encodeChars]

theorem eq_nil_of_encodeChars {chars : List Char} (empty : encodeChars chars = []) : chars = [] := by
  have decoded := readChars_encodeChars chars
  rw [empty, readChars_of_stuck rfl] at decoded
  exact (Except.ok.inj decoded).symm

theorem toNat_tail (value : Nat) : (tail value).toNat = 128 + value % 64 :=
  toNat_toUInt8_of_lt (by omega)

theorem unit_of_mem_encodeUnit {unit : Nat} (small : unit < 0x10000) {byte : UInt8} (present : byte ∈ encodeUnit unit)
    (ascii : byte.toNat < 128) : byte.toNat = unit := by
  unfold encodeUnit at present
  split at present
  next range =>
    obtain rfl := List.mem_singleton.mp present
    exact toNat_toUInt8_of_lt (by omega)
  next =>
    -- All bytes of longer spellings have their highest bit set.
    split at present
    next =>
      have lead : (0xC0 + unit / 64).toUInt8.toNat = 0xC0 + unit / 64 := toNat_toUInt8_of_lt (by omega)
      have := toNat_tail unit
      simp only [List.mem_cons, List.not_mem_nil, or_false] at present
      rcases present with rfl | rfl <;> omega
    next =>
      have lead : (0xE0 + unit / 4096).toUInt8.toNat = 0xE0 + unit / 4096 := toNat_toUInt8_of_lt (by omega)
      have := toNat_tail (unit / 64)
      have := toNat_tail unit
      simp only [List.mem_cons, List.not_mem_nil, or_false] at present
      rcases present with rfl | rfl | rfl <;> omega

theorem char_of_mem_encodeChars {chars : List Char} {byte : UInt8} (present : byte ∈ encodeChars chars)
    (ascii : byte.toNat < 128) : ∃ c ∈ chars, c.toNat = byte.toNat := by
  obtain ⟨unit, among, within⟩ := List.mem_flatMap.mp present
  obtain ⟨c, listed, spelled⟩ := List.mem_flatMap.mp among
  have same := unit_of_mem_encodeUnit (units_lt spelled) within ascii
  refine ⟨c, listed, ?_⟩
  unfold units at spelled
  split at spelled
  next => rw [same, List.mem_singleton.mp spelled]
  next =>
    simp only [List.mem_cons, List.not_mem_nil, or_false] at spelled
    omega

theorem not_mem_encodeChars {chars : List Char} {c : Char} (absent : c ∉ chars) {byte : UInt8}
    (same : byte.toNat = c.toNat) (ascii : byte.toNat < 128) : byte ∉ encodeChars chars := by
  intro present
  obtain ⟨other, listed, equal⟩ := char_of_mem_encodeChars present ascii
  exact absent (Char.toNat_inj.mp (equal.trans same) ▸ listed)

end ModifiedUtf8

structure OneLine (chars : List Char) : Prop where
  noFeed : '\n' ∉ chars
  noReturn : '\r' ∉ chars

namespace OneLine

variable {chars others : List Char}

theorem unbroken (oneLine : OneLine chars) : Unbroken (ModifiedUtf8.encodeChars chars) where
  noFeed := ModifiedUtf8.not_mem_encodeChars oneLine.noFeed rfl (by decide)
  noReturn := ModifiedUtf8.not_mem_encodeChars oneLine.noReturn rfl (by decide)

theorem append (first : OneLine chars) (second : OneLine others) : OneLine (chars ++ others) where
  noFeed present := (List.mem_append.mp present).elim first.noFeed second.noFeed
  noReturn present := (List.mem_append.mp present).elim first.noReturn second.noReturn

end OneLine

namespace Blank

theorem dropWhile_of_head {chars : List Char} (first : ∀ c, chars.head? = some c → isBlank c = false) :
    chars.dropWhile isBlank = chars := by
  cases chars with
  | nil => rfl
  | cons c rest => exact List.dropWhile_cons_of_neg (by simp [first c rfl])

theorem trim_blank {chars : List Char} (blank : ∀ c ∈ chars, isBlank c = true) :
    trim (String.ofList chars) = String.ofList [] := by
  have nothing : chars.dropWhile isBlank = [] := by
    rw [← List.append_nil chars, List.dropWhile_append_of_pos blank]
    rfl
  rw [trim, String.toList_ofList, nothing]
  rfl

theorem trim_padded {before chars after : List Char} (nonempty : chars ≠ [])
    (blankBefore : ∀ c ∈ before, isBlank c = true) (blankAfter : ∀ c ∈ after, isBlank c = true)
    (first : ∀ c, chars.head? = some c → isBlank c = false)
    (last : ∀ c, chars.getLast? = some c → isBlank c = false) :
    trim (String.ofList (before ++ chars ++ after)) = String.ofList chars := by
  have front : (chars ++ after).dropWhile isBlank = chars ++ after := by
    obtain ⟨c, rest, rfl⟩ := List.exists_cons_of_ne_nil nonempty
    exact dropWhile_of_head first
  have back : chars.reverse.dropWhile isBlank = chars.reverse :=
    dropWhile_of_head fun c starts => last c (by rwa [List.head?_reverse] at starts)
  have behind : ∀ c ∈ after.reverse, isBlank c = true := fun c present => blankAfter c (List.mem_reverse.mp present)
  rw [trim, String.toList_ofList, List.append_assoc, List.dropWhile_append_of_pos blankBefore, front,
    List.reverse_append, List.dropWhile_append_of_pos behind, back, List.reverse_reverse]

theorem head_trim {before rest : List Char} {c : Char} (blankBefore : ∀ c ∈ before, isBlank c = true)
    (solid : isBlank c = false) : (trim (String.ofList (before ++ c :: rest))).toList.head? = some c := by
  have front : (c :: rest).dropWhile isBlank = c :: rest := List.dropWhile_cons_of_neg (by simp [solid])
  rw [trim, String.toList_ofList, String.toList_ofList, List.dropWhile_append_of_pos blankBefore, front,
    List.reverse_cons, List.head?_reverse, List.dropWhile_append]
  split
  next => simp [solid]
  next => exact List.getLast?_concat

end Blank

structure Margin where
  chars : List Char
  blank : ∀ c ∈ chars, Blank.isBlank c = true
  oneLine : OneLine chars

/-- Text that can be told from a margin around it and from a comment. -/
structure Solid (chars : List Char) : Prop where
  nonempty : chars ≠ []
  oneLine : OneLine chars
  first : ∀ c, chars.head? = some c → Blank.isBlank c = false
  last : ∀ c, chars.getLast? = some c → Blank.isBlank c = false
  uncommented : chars.head? ≠ some '#'

section

variable {chars : List Char} {change : Char → Char} (kept : ∀ c, change c = c ∨ change c = '/')

include kept

theorem eq_of_changed {c d : Char} (changed : change c = d) (other : d ≠ '/') : c = d := by
  rcases kept c with same | slash
  · rw [← same, changed]
  · exact absurd (changed.symm.trans slash) other

theorem not_mem_changed {d : Char} (other : d ≠ '/') (absent : d ∉ chars) : d ∉ chars.map change := by
  intro present
  obtain ⟨c, listed, changed⟩ := List.mem_map.mp present
  exact absent (eq_of_changed kept changed other ▸ listed)

theorem Solid.map (solid : Solid chars) : Solid (chars.map change) := by
  have blank {c : Char} (blankless : Blank.isBlank c = false) : Blank.isBlank (change c) = false := by
    rcases kept c with same | slash
    · rwa [same]
    · rw [slash]
      decide
  constructor
  · simpa using solid.nonempty
  · exact ⟨not_mem_changed kept (by decide) solid.oneLine.noFeed,
      not_mem_changed kept (by decide) solid.oneLine.noReturn⟩
  · intro c starts
    rw [List.head?_map] at starts
    obtain ⟨d, heads, rfl⟩ := Option.map_eq_some_iff.mp starts
    exact blank (solid.first d heads)
  · intro c ends
    rw [List.getLast?_map] at ends
    obtain ⟨d, closes, rfl⟩ := Option.map_eq_some_iff.mp ends
    exact blank (solid.last d closes)
  · intro starts
    rw [List.head?_map] at starts
    obtain ⟨d, heads, changed⟩ := Option.map_eq_some_iff.mp starts
    exact solid.uncommented (eq_of_changed kept changed (by decide) ▸ heads)

end

structure Entry where
  name : ClassName
  solid : Solid name.text.toList
  internal : Bool

namespace Entry

def text (entry : Entry) : String :=
  if entry.internal then entry.name.toInternal else entry.name.text

theorem text_solid (entry : Entry) : Solid entry.text.toList := by
  unfold text
  split
  next =>
    rw [ClassName.toInternal, ClassName.swap, String.toList_ofList]
    refine Solid.map (fun c => ?_) entry.solid
    split
    next => exact .inr rfl
    next => exact .inl rfl
  next => exact entry.solid

-- Either form gives the name back. Without a slash the two are the same.
theorem name_of_text (entry : Entry) :
    (if '/' ∈ entry.text.toList then ClassName.ofInternal entry.text else ClassName.ofDotted entry.text) =
      .ok entry.name := by
  obtain ⟨name, solid, internal⟩ := entry
  cases internal with
  | false => exact (if_neg name.dotted).trans name.ofDotted_text
  | true =>
    change (if '/' ∈ name.toInternal.toList then ClassName.ofInternal name.toInternal
      else ClassName.ofDotted name.toInternal) = _
    split
    next => exact name.ofInternal_toInternal
    next undivided =>
      rw [← ClassName.swap_of_not_mem undivided '.', name.swap_toInternal]
      exact name.ofDotted_text

end Entry

inductive ListLine where
  | entry (before : Margin) (item : Entry) (after : Margin)
  | blank (margin : Margin)
  | comment (before : Margin) (text : List Char) (oneLine : OneLine text)

namespace ListLine

def chars : ListLine → List Char
  | .entry before item after => before.chars ++ item.text.toList ++ after.chars
  | .blank margin => margin.chars
  | .comment before text _ => before.chars ++ '#' :: text

def name? : ListLine → Option ClassName
  | .entry _ item _ => some item.name
  | .blank _ | .comment _ _ _ => none

theorem oneLine (line : ListLine) : OneLine line.chars := by
  cases line with
  | entry before item after => exact (before.oneLine.append item.text_solid.oneLine).append after.oneLine
  | blank margin => exact margin.oneLine
  | comment before text oneLine =>
    refine before.oneLine.append ⟨?_, ?_⟩
    · exact List.not_mem_cons_of_ne_of_not_mem (by decide) oneLine.noFeed
    · exact List.not_mem_cons_of_ne_of_not_mem (by decide) oneLine.noReturn

theorem name?_of_empty {line : ListLine} (empty : line.chars = []) : line.name? = none := by
  cases line with
  | entry before item after =>
    obtain ⟨front, _⟩ := List.append_eq_nil_iff.mp empty
    obtain ⟨_, nothing⟩ := List.append_eq_nil_iff.mp front
    exact absurd nothing item.text_solid.nonempty
  | blank => rfl
  | comment => rfl

end ListLine

theorem ClassList.name?_chars (line : ListLine) : ClassList.name? (String.ofList line.chars) = .ok line.name? := by
  cases line with
  | entry before item after =>
    have solid := item.text_solid
    have trimmed : Blank.trim (String.ofList (before.chars ++ item.text.toList ++ after.chars)) = item.text := by
      rw [Blank.trim_padded solid.nonempty before.blank after.blank solid.first solid.last, String.ofList_toList]
    have found := item.name_of_text
    simp only [ClassList.name?, ListLine.chars, trimmed]
    rw [if_neg (not_or.mpr ⟨solid.nonempty, solid.uncommented⟩)]
    split at found
    next slashed => rw [if_pos slashed, found]; rfl
    next plain => rw [if_neg plain, found]; rfl
  | blank margin =>
    simp only [ClassList.name?, ListLine.chars, Blank.trim_blank margin.blank]
    exact if_pos (.inl String.toList_ofList)
  | comment before text oneLine =>
    simp only [ClassList.name?, ListLine.chars]
    exact if_pos (.inr (Blank.head_trim before.blank (by decide)))

def LineEnd.chars : LineEnd → List Char
  | .lineFeed => ['\n']
  | .carriageReturn => ['\r']
  | .both => ['\r', '\n']

theorem LineEnd.encodeChars_chars (ending : LineEnd) : ModifiedUtf8.encodeChars ending.chars = ending.bytes := by
  cases ending <;> rfl

structure ListText where
  lines : List (ListLine × LineEnd)
  last : Option ListLine

namespace ListText

def chars (text : ListText) : List Char :=
  text.lines.flatMap (fun (line, ending) => line.chars ++ ending.chars) ++ (text.last.map ListLine.chars).getD []

def names (text : ListText) : List ClassName :=
  text.lines.filterMap (fun (line, _) => line.name?) ++ (text.last.bind ListLine.name?).toList

end ListText

namespace ClassList

def Reads (bytes : List UInt8) (names : List ClassName) : Prop :=
  ∀ path number position last, readFrom path number ⟨position, bytes, last⟩ = .ok names

theorem Reads.nil : Reads [] [] := by
  intro path number position last
  rw [readFrom]
  rfl

theorem Reads.line {bytes rest terminator : List UInt8} {line : ListLine} {names : List ClassName}
    (split : FirstLine bytes ⟨ModifiedUtf8.encodeChars line.chars, terminator⟩ rest) (later : Reads rest names) :
    Reads bytes (line.name?.toList ++ names) := by
  intro path number position last
  have decoded : Reader.decodeText (ModifiedUtf8.encodeChars line.chars) = .ok (String.ofList line.chars) := by
    have back := ModifiedUtf8.decode_encode (String.ofList line.chars)
    rw [ModifiedUtf8.encode, String.toList_ofList] at back
    rw [Reader.decodeText, back]
    rfl
  have ran := Reader.line_of_firstLine split position last
  simp only [decoded, Reader.delivered] at ran
  rw [readFrom]
  split
  next cause next failed => rw [ran] at failed; cases failed
  next next ended => rw [ran] at ended; cases ended
  next content next read =>
    rw [ran] at read
    cases read
    rw [name?_chars, later]
    rfl

end ClassList

namespace ListText

def bytes (text : ListText) : List UInt8 :=
  ModifiedUtf8.encodeChars text.chars

theorem bytes_cons (line : ListLine) (ending : LineEnd) (lines : List (ListLine × LineEnd)) (last : Option ListLine) :
    bytes ⟨(line, ending) :: lines, last⟩ =
      ModifiedUtf8.encodeChars line.chars ++ ending.bytes ++ bytes ⟨lines, last⟩ := by
  simp only [bytes, chars, List.flatMap_cons, List.append_assoc, ModifiedUtf8.encodeChars_append,
    ending.encodeChars_chars]

theorem names_cons (line : ListLine) (ending : LineEnd) (lines : List (ListLine × LineEnd)) (last : Option ListLine) :
    names ⟨(line, ending) :: lines, last⟩ = line.name?.toList ++ names ⟨lines, last⟩ := by
  cases named : line.name? <;> simp [names, named]

-- A list starts with a line feed only if that ends an empty first line.
theorem lineFeed_first {lines : List (ListLine × LineEnd)} {last : Option ListLine}
    (starts : (bytes ⟨lines, last⟩).head? = some Reader.lineFeed) :
    ∃ line others, lines = (line, .lineFeed) :: others ∧ line.chars = [] := by
  cases lines with
  | nil =>
    cases last with
    | none => cases starts
    | some line =>
      change (ModifiedUtf8.encodeChars line.chars).head? = _ at starts
      rw [← List.append_nil (ModifiedUtf8.encodeChars line.chars)] at starts
      refine absurd starts (line.oneLine.unbroken.head_ne_lineFeed (fun none => ?_) [])
      rw [none] at starts
      cases starts
  | cons head others =>
    obtain ⟨line, ending⟩ := head
    rw [bytes_cons, List.append_assoc] at starts
    by_cases empty : ModifiedUtf8.encodeChars line.chars = []
    · rw [empty] at starts
      cases ending with
      | lineFeed => exact ⟨line, others, rfl, ModifiedUtf8.eq_nil_of_encodeChars empty⟩
      | carriageReturn | both => exact absurd (Option.some.inj starts) (by decide)
    · exact absurd starts (line.oneLine.unbroken.head_ne_lineFeed empty _)

theorem reads_last (last : Option ListLine) : ClassList.Reads (bytes ⟨[], last⟩) (names ⟨[], last⟩) := by
  cases last with
  | none => exact .nil
  | some line =>
    by_cases empty : line.chars = []
    · have nothing : bytes ⟨[], some line⟩ = [] := congrArg ModifiedUtf8.encodeChars empty
      have nobody : names ⟨[], some line⟩ = [] := congrArg Option.toList (ListLine.name?_of_empty empty)
      rw [nothing, nobody]
      exact .nil
    · have split := FirstLine.unterminated line.oneLine.unbroken (mt ModifiedUtf8.eq_nil_of_encodeChars empty)
      have alone := ClassList.Reads.line split .nil
      rwa [List.append_nil] at alone

theorem reads : ∀ (lines : List (ListLine × LineEnd)) (last : Option ListLine),
    ClassList.Reads (bytes ⟨lines, last⟩) (names ⟨lines, last⟩)
  | [], last => reads_last last
  | (line, ending) :: rest, last => by
    rw [bytes_cons, names_cons]
    by_cases merged : ending = .carriageReturn ∧ (bytes ⟨rest, last⟩).head? = some Reader.lineFeed
    · -- The line feed is that of an empty line, and ends this line together with the carriage return.
      obtain ⟨rfl, starts⟩ := merged
      obtain ⟨empty, others, rfl, none⟩ := lineFeed_first starts
      have split : FirstLine _ ⟨_, LineEnd.both.bytes⟩ (bytes ⟨others, last⟩) :=
        .terminated line.oneLine.unbroken .both (by rintro ⟨⟩)
      have joined := ClassList.Reads.line split (reads others last)
      rw [bytes_cons, names_cons, none, ListLine.name?_of_empty none]
      simpa [LineEnd.bytes, ModifiedUtf8.encodeChars_nil] using joined
    · exact .line (.terminated line.oneLine.unbroken ending (not_and.mp merged)) (reads rest last)

end ListText

/-- A list of classes names exactly the classes written on it, in order, whether in dotted or in internal form, and
however its lines are padded, mixed with blank lines and comments, and terminated. -/
theorem Directory.withList_of_text (directory : Directory) (path : Path) (text : ListText)
    (stored : directory.system.read path .unreadable = .ok (ModifiedUtf8.encode (String.ofList text.chars))) :
    directory.withList path = .ok { directory with listed := some text.names } := by
  have read : ClassList.read path.text text.bytes = .ok text.names := ListText.reads text.lines text.last ..
  have content : ModifiedUtf8.encode (String.ofList text.chars) = text.bytes := by
    rw [ModifiedUtf8.encode, String.toList_ofList, ListText.bytes]
  simp only [withList, stored, content, read]
  rfl

def nestedName : ClassName := ⟨"p.T", by decide, by decide⟩

def rootedName : ClassName := ⟨".Z", by decide, by decide⟩

theorem nestedName_solid : Solid nestedName.text.toList where
  nonempty := nestedName.nonempty
  oneLine := ⟨by decide, by decide⟩
  first := by simp [nestedName, Blank.isBlank, Blank.ranges]
  last := by simp [nestedName, Blank.isBlank, Blank.ranges]
  uncommented := by decide

theorem rootedName_solid : Solid rootedName.text.toList where
  nonempty := rootedName.nonempty
  oneLine := ⟨by decide, by decide⟩
  first := by simp [rootedName, Blank.isBlank, Blank.ranges]
  last := by simp [rootedName, Blank.isBlank, Blank.ranges]
  uncommented := by decide

def Margin.none : Margin := ⟨[], by simp, by simp, by simp⟩

def Margin.tab : Margin := ⟨['\t'], by simp [Blank.isBlank, Blank.ranges], by decide, by decide⟩

def mixedList : ListText where
  lines :=
    [(.entry .tab ⟨nestedName, nestedName_solid, true⟩ .none, .carriageReturn), (.blank .none, .lineFeed),
      (.comment .tab ['x'] ⟨by decide, by decide⟩, .both),
      (.entry .none ⟨nestedName, nestedName_solid, false⟩ .tab, .lineFeed)]
  last := some (.entry .none ⟨rootedName, rootedName_solid, true⟩ .none)

def listingDirectory : Directory where
  system := ⟨.directory [("l", .file (some (ModifiedUtf8.encode "\tp/T\r\n\t#x\r\np.T\t\n/Z")))], []⟩
  root := ⟨"."⟩
  listed := none

theorem Directory.withList_of_text_mixed :
    listingDirectory.system.read ⟨"l"⟩ .unreadable = .ok (ModifiedUtf8.encode "\tp/T\r\n\t#x\r\np.T\t\n/Z") ∧
      listingDirectory.withList ⟨"l"⟩ =
        .ok { listingDirectory with listed := some [nestedName, nestedName, rootedName] } :=
  ⟨rfl, withList_of_text listingDirectory ⟨"l"⟩ mixedList rfl⟩

end PhaseCheck
