import Fghj.Library.Search
import Fghj.Library.Utf8Pieces
import Fghj.Traffic

/-!
# Multipart bodies

A recorded form is shown part by part. The body is cut wherever the delimiter stands, the header of
a part at every semicolon, and what is left is trimmed. A part that was put together in the
standard way is read as it was, unless a name holds a semicolon or its type is padded.
-/

namespace Fghj
namespace Multipart

open Traffic (Part isTextual essence multipartBoundary)

/-! ## Reading a body -/

def crlf : List UInt8 := [13, 10]

/-- The text without the pattern at its start. -/
def stripStart (pattern text : List UInt8) : List UInt8 :=
  if pattern <+: text then text.drop pattern.length else text

/-- The text without the pattern at its end. -/
def stripEnd (pattern text : List UInt8) : List UInt8 :=
  if pattern <:+ text then text.take (text.length - pattern.length) else text

/-- The text without a character at either end. -/
def trimMatches (char : Char) (text : List Char) : List Char :=
  ((text.dropWhile (· = char)).reverse.dropWhile (· = char)).reverse

/-- What the header of a part says. -/
structure Fields where
  name : Option (List Char) := none
  filename : Option (List Char) := none
  contentType : Option (List Char) := none

/-- A parameter of the disposition of a part. -/
def readParam (fields : Fields) (param : List Char) : Fields :=
  match Text.splitOnce '=' param with
  | some (key, value) =>
      let value := trimMatches '"' (Text.trim value)
      if Text.trim key = "name".toList then { fields with name := some value }
      else if Text.trim key = "filename".toList then { fields with filename := some value }
      else fields
  | none => fields

/-- A line of the header of a part. -/
def readLine (fields : Fields) (line : List Char) : Fields :=
  match Text.splitOnce ':' line with
  | some (key, value) =>
      if Text.toAsciiLowercase (Text.trim key) = "content-type".toList then
        { fields with contentType := some (Text.trim value) }
      else if Text.toAsciiLowercase (Text.trim key) = "content-disposition".toList then
        ((value.splitOn ';').drop 1).foldl readParam fields
      else fields
  | none => fields

/-- The part is a file: it has a filename or a type that is not textual. -/
def Fields.isFile (fields : Fields) : Bool :=
  fields.filename.isSome ||
    fields.contentType.any fun contentType => !isTextual (essence (String.ofList contentType))

/-- Text without a null; a character at the end may be cut. -/
def textOf (bytes : List UInt8) : Option (List Char) :=
  (Utf8.fromUtf8 bytes).filter fun text => !text.contains '\x00'

/-- A part with some fields and some content. -/
def partOf (keepFiles : Bool) (fields : Fields) (content : List UInt8) : Part where
  name := fields.name.map String.ofList
  filename := fields.filename.map String.ofList
  contentType := fields.contentType.map String.ofList
  size := content.length
  text := if !fields.isFile || keepFiles then (textOf content).map String.ofList else none

/-- What stands between two delimiters, if it is a part. -/
def readPart (keepFiles : Bool) (chunk : List UInt8) : Option Part :=
  let chunk := stripEnd crlf (stripStart crlf chunk)
  (Search.find (crlf ++ crlf) chunk).map fun split =>
    partOf keepFiles ((Text.lines (Utf8.fromUtf8Lossy (chunk.take split))).foldl readLine {})
      (chunk.drop (split + 4))

/-- The parts, up to the last delimiter. -/
def readParts (keepFiles : Bool) : List (List UInt8) → List Part
  | [] => []
  | chunk :: chunks =>
      if [45, 45] <+: chunk then []
      else (readPart keepFiles chunk).toList ++ readParts keepFiles chunks

def parseMultipart (body : List UInt8) (boundary : String) (keepFiles : Bool) : List Part :=
  readParts keepFiles
    ((Search.pieces (Utf8.encode ("--".toList ++ boundary.toList)) body).drop 1)

/-! ## The standard form -/

/-- The characters of a boundary. -/
def isBoundaryChar (char : Char) : Bool := char.isAlphanum || "'()+_,-./:=? ".toList.contains char

/-- A boundary as RFC 2046 has it. -/
structure Boundary where
  chars : List Char
  allowed : (!chars.isEmpty && decide (chars.length ≤ 70) && chars.all isBoundaryChar &&
    chars.getLast? != some ' ') = true

/-- The characters that start a delimiter. -/
def Boundary.dashes (boundary : Boundary) : List Char := "--".toList ++ boundary.chars

def Boundary.delimiter (boundary : Boundary) : List UInt8 := Utf8.encode boundary.dashes

def Boundary.value (boundary : Boundary) (quoted : Bool) : List Char :=
  if quoted then '"' :: boundary.chars ++ ['"'] else boundary.chars

/-- The type of a form, with the boundary in quotes or without. -/
def Boundary.header (boundary : Boundary) (quoted : Bool) : String :=
  String.ofList ("multipart/form-data; boundary=".toList ++ boundary.value quoted)

/-- A character that a field of a part may hold. -/
def isPlainChar (char : Char) : Bool := char != '"' && char != '\r' && char != '\n'

/-- A line of a header that says nothing of what is read and holds no start of a delimiter. -/
def isFurther (line : List Char) : Bool :=
  !line.isEmpty && line.all (fun char => char != '\r' && char != '\n') &&
    !decide ("--".toList <:+: line) &&
    (Text.splitOnce ':' line).all fun (key, _) =>
      !List.contains ["content-type".toList, "content-disposition".toList]
        (Text.toAsciiLowercase (Text.trim key))

/-- A part as it is sent, with a name or without, and with further lines in its header. -/
structure Sent where
  name : Option (List Char)
  filename : Option (List Char)
  contentType : Option (List Char)
  more : List (List Char) := []
  content : List UInt8
  plain : (name.all (·.all isPlainChar) && filename.all (·.all isPlainChar) &&
    contentType.all (·.all isPlainChar) && more.all isFurther) = true

/-- A parameter as it is written. -/
def param (key value : List Char) : List Char := key ++ '=' :: ('"' :: value ++ ['"'])

namespace Sent

/-- The parameters of the disposition. -/
def params (sent : Sent) : List (List Char) :=
  sent.name.toList.map (param " name".toList) ++ sent.filename.toList.map (param " filename".toList)

def disposition (sent : Sent) : List Char :=
  "Content-Disposition: form-data".toList ++ sent.params.flatMap (';' :: ·)

/-- The lines of the header after the disposition. -/
def others (sent : Sent) : List (List Char) :=
  sent.contentType.toList.map ("Content-Type: ".toList ++ ·) ++ sent.more

def lines (sent : Sent) : List (List Char) := sent.disposition :: sent.others

def head (sent : Sent) : List Char := sent.disposition ++ sent.others.flatMap ("\r\n".toList ++ ·)

/-- What stands before the content. -/
def front (sent : Sent) : List UInt8 := crlf ++ Utf8.encode sent.head ++ crlf ++ crlf

/-- A part between the delimiters. -/
def chunk (sent : Sent) : List UInt8 :=
  crlf ++ Utf8.encode sent.head ++ crlf ++ crlf ++ sent.content ++ crlf

/-- What is to be shown of the header. -/
def fields (sent : Sent) : Fields := ⟨sent.name, sent.filename, sent.contentType⟩

end Sent

/-- Some parts in the standard form. -/
def encode (boundary : Boundary) (parts : List Sent) : List UInt8 :=
  parts.flatMap (fun sent => boundary.delimiter ++ sent.chunk) ++ boundary.delimiter ++
    [45, 45] ++ crlf

@[simp]
theorem size_partOf (keepFiles : Bool) (fields : Fields) (content : List UInt8) :
    (partOf keepFiles fields content).size = content.length := rfl

/-! ## Stripping -/

@[simp]
theorem stripStart_append (pattern text : List UInt8) :
    stripStart pattern (pattern ++ text) = text := by
  rw [stripStart, if_pos (List.prefix_append _ _), List.drop_left]

@[simp]
theorem stripEnd_append (text pattern : List UInt8) :
    stripEnd pattern (text ++ pattern) = text := by
  rw [stripEnd, if_pos (List.suffix_append _ _), List.length_append, Nat.add_sub_cancel,
    List.take_left]

/-! ## The boundary -/

variable {char : Char}

theorem toNat_of_isAlphanum (letter : char.isAlphanum) : 48 ≤ char.toNat ∧ char.toNat ≤ 122 := by
  delta Char.isAlphanum Char.isAlpha Char.isUpper Char.isLower Char.isDigit at letter
  simp only [Bool.or_eq_true, Bool.and_eq_true, decide_eq_true_eq, ge_iff_le,
    UInt32.le_iff_toNat_le] at letter
  change 48 ≤ char.val.toNat ∧ char.val.toNat ≤ 122
  have digits : '0'.val.toNat = 48 ∧ '9'.val.toNat = 57 := ⟨rfl, rfl⟩
  have upper : 'A'.val.toNat = 65 ∧ 'Z'.val.toNat = 90 := ⟨rfl, rfl⟩
  have lower : 'a'.val.toNat = 97 ∧ 'z'.val.toNat = 122 := ⟨rfl, rfl⟩
  omega

/-- The characters of a boundary have one byte, and only one of them is a space. -/
theorem isBoundaryChar_spec (allowed : isBoundaryChar char) :
    Utf8.Ascii char ∧ (char = ' ' ∨ ¬Text.isWhitespace char) := by
  rw [isBoundaryChar, Bool.or_eq_true] at allowed
  rcases allowed with letter | listed
  · have range := toNat_of_isAlphanum letter
    refine ⟨show char.toNat < 0x80 by omega, .inr ?_⟩
    simp only [Text.isWhitespace, Bool.or_eq_true, Bool.and_eq_true, decide_eq_true_eq, beq_iff_eq]
    omega
  · have all : "'()+_,-./:=? ".toList.all fun char =>
        decide (char.toNat < 0x80) && (char == ' ' || !Text.isWhitespace char) := by decide
    have here := List.all_eq_true.mp all char (List.contains_iff_mem.mp listed)
    simpa [Utf8.Ascii] using here

namespace Boundary

variable (boundary : Boundary)

theorem solid : boundary.delimiter ≠ [] := by
  simp [delimiter, dashes, Utf8.encode]

theorem isBoundaryChar_of_mem (member : char ∈ boundary.chars) : isBoundaryChar char := by
  have allowed := boundary.allowed
  simp only [Bool.and_eq_true, List.all_eq_true] at allowed
  exact allowed.1.2 char member

theorem not_mem (other : isBoundaryChar char = false) : char ∉ boundary.chars := by
  intro member
  rw [boundary.isBoundaryChar_of_mem member] at other
  cases other

theorem not_mem_dashes (other : isBoundaryChar char = false) : char ∉ boundary.dashes := by
  intro member
  rcases List.mem_append.mp member with dash | inside
  · obtain rfl : char = '-' := by simpa using dash
    exact absurd other (by decide)
  · exact boundary.not_mem other inside

theorem not_mem_delimiter (ascii : Utf8.Ascii char) (other : isBoundaryChar char = false) :
    UInt8.ofNat char.toNat ∉ boundary.delimiter := by
  rw [delimiter, Utf8.mem_encode_iff ascii]
  exact boundary.not_mem_dashes other

theorem return_not_mem : 13 ∉ boundary.delimiter :=
  @boundary.not_mem_delimiter '\r' (by decide) (by decide)

theorem newline_not_mem : 10 ∉ boundary.delimiter :=
  @boundary.not_mem_delimiter '\n' (by decide) (by decide)

theorem ascii : ∀ char ∈ boundary.dashes, Utf8.Ascii char := by
  intro char member
  rcases List.mem_append.mp member with dash | inside
  · obtain rfl : char = '-' := by simpa using dash
    decide
  · exact (isBoundaryChar_spec (boundary.isBoundaryChar_of_mem inside)).1

end Boundary

theorem dropWhile_bare {text : List Char} (bare : char ∉ text) :
    text.dropWhile (· = char) = text := by
  cases text with
  | nil => rfl
  | cons first text =>
      have other : first ≠ char := fun same => bare (same ▸ List.mem_cons_self)
      simp [other]

theorem trimMatches_bare {text : List Char} (bare : char ∉ text) :
    trimMatches char text = text := by
  rw [trimMatches, dropWhile_bare bare, dropWhile_bare (by simpa using bare), List.reverse_reverse]

theorem trimMatches_quoted {text : List Char} (bare : char ∉ text) :
    trimMatches char (char :: text ++ [char]) = text := by
  have back : (text ++ [char]).reverse.dropWhile (· = char) = text.reverse := by
    rw [List.reverse_append, List.reverse_singleton, List.singleton_append,
      List.dropWhile_cons_of_pos (by simp), dropWhile_bare (by simpa using bare)]
  rw [trimMatches, List.cons_append, List.dropWhile_cons_of_pos (by simp)]
  cases text with
  | nil => simp
  | cons first rest =>
      have other : first ≠ char := fun same => bare (same ▸ List.mem_cons_self)
      rw [List.cons_append, List.dropWhile_cons_of_neg (by simpa using other), ← List.cons_append,
        back, List.reverse_reverse]

theorem trim_quoted (text : List Char) :
    Text.trim ('"' :: text ++ ['"']) = '"' :: text ++ ['"'] := by
  refine Text.trim_eq_of_ends ?_ ?_
  · intro char first
    obtain rfl : '"' = char := by simpa using first
    decide
  · intro char last
    rw [List.getLast?_append_of_ne_nil _ (List.cons_ne_nil _ _)] at last
    obtain rfl : '"' = char := by simpa using last
    decide

theorem header_toList (boundary : Boundary) (quoted : Bool) :
    (boundary.header quoted).toList = "multipart/form-data".toList ++
      ';' :: (" boundary".toList ++ '=' :: boundary.value quoted) := by
  have whole : (boundary.header quoted).toList =
      "multipart/form-data; boundary=".toList ++ boundary.value quoted := String.toList_ofList
  have literal : "multipart/form-data; boundary=".toList =
      "multipart/form-data".toList ++ ';' :: (" boundary".toList ++ ['=']) := by decide
  rw [whole, literal]
  simp only [List.append_assoc, List.cons_append, List.nil_append]

theorem trim_value {boundary : Boundary} {quoted : Bool}
    (spaceless : quoted = false → ' ' ∉ boundary.chars) :
    trimMatches '"' (Text.trim (boundary.value quoted)) = boundary.chars := by
  have bare : '"' ∉ boundary.chars := boundary.not_mem (by decide)
  cases quoted with
  | true =>
      change trimMatches '"' (Text.trim ('"' :: boundary.chars ++ ['"'])) = _
      rw [trim_quoted, trimMatches_quoted bare]
  | false =>
      change trimMatches '"' (Text.trim boundary.chars) = _
      have solid : ∀ char ∈ boundary.chars, ¬Text.isWhitespace char := by
        intro char member
        rcases (isBoundaryChar_spec (boundary.isBoundaryChar_of_mem member)).2 with rfl | solid
        · exact absurd member (spaceless rfl)
        · exact solid
      rw [Text.trim_eq_self solid, trimMatches_bare bare]

theorem essence_header (boundary : Boundary) (quoted : Bool) :
    essence (boundary.header quoted) = "multipart/form-data" := by
  have front : (boundary.header quoted).toList.takeWhile (· ≠ ';') =
      "multipart/form-data".toList := by
    rw [header_toList, List.takeWhile_append_of_pos (List.all_eq_true.mp (by decide)),
      List.takeWhile_cons_of_neg (by simp), List.append_nil]
  have lower : (String.ofList (Text.trim "multipart/form-data".toList)).toLower =
      "multipart/form-data" := by decide +kernel
  exact (congrArg (fun front => (String.ofList (Text.trim front)).toLower) front).trans lower

/-- The boundary is found in the type of the form. -/
theorem multipartBoundary_header {boundary : Boundary} {quoted : Bool}
    (spaceless : quoted = false → ' ' ∉ boundary.chars) :
    multipartBoundary (boundary.header quoted) = some (String.ofList boundary.chars) := by
  have starts : (!(essence (boundary.header quoted)).startsWith "multipart/") = false := by
    rw [essence_header]
    decide +kernel
  have single : ';' ∉ " boundary".toList ++ '=' :: boundary.value quoted := by
    have apart : ';' ∉ boundary.chars := boundary.not_mem (by decide)
    have bare : ';' ∉ boundary.value quoted := by
      rw [Boundary.value]
      split_ifs <;> simp [apart]
    simp [bare]
  have split : (boundary.header quoted).toList.splitOn ';' =
      ["multipart/form-data".toList, " boundary".toList ++ '=' :: boundary.value quoted] := by
    rw [header_toList, List.splitOn_append_cons_self_of_not_mem (by decide),
      List.splitOn_eq_singleton single]
  have key : (String.ofList (Text.trim " boundary".toList)).toLower = "boundary" := by
    decide +kernel
  have read := trim_value spaceless
  rw [trimMatches] at read
  rw [multipartBoundary, starts, split]
  simp only [List.drop_succ_cons, List.drop_zero, List.findSome?_cons, Bool.false_eq_true, if_false,
    Text.splitOnce_append (by decide : '=' ∉ " boundary".toList), Option.bind_some, key, if_true,
    read]

/-! ## Reading a part -/

theorem isFurther_spec {line : List Char} (further : isFurther line) :
    (line ≠ [] ∧ '\r' ∉ line ∧ '\n' ∉ line) ∧ ¬"--".toList <:+: line ∧
      ∀ fields, readLine fields line = fields := by
  simp only [isFurther, Bool.and_eq_true, Bool.not_eq_true', decide_eq_false_iff_not,
    List.isEmpty_eq_false_iff, List.all_eq_true, bne_iff_ne, Option.all_eq_true] at further
  obtain ⟨⟨⟨some, bare⟩, undashed⟩, other⟩ := further
  refine ⟨⟨some, fun inside => (bare _ inside).1 rfl, fun inside => (bare _ inside).2 rfl⟩,
    undashed, fun fields => ?_⟩
  rw [readLine]
  split
  · rename_i key value split
    have neither := other _ split
    simp only [List.contains_eq_mem, List.mem_cons, List.not_mem_nil, or_false,
      decide_eq_false_iff_not, not_or] at neither
    rw [if_neg neither.1, if_neg neither.2]
  · rfl

theorem foldl_readLine_further {lines : List (List Char)} (further : ∀ line ∈ lines, isFurther line)
    (fields : Fields) : lines.foldl readLine fields = fields :=
  List.foldlRecOn lines readLine (motive := (· = fields)) rfl fun _ same line member =>
    ((isFurther_spec (further line member)).2.2 _).trans same

namespace Sent

variable (sent : Sent)

theorem further : ∀ line ∈ sent.more, isFurther line := by
  have plain := sent.plain
  simp only [Bool.and_eq_true, List.all_eq_true] at plain
  exact plain.2

/-- No field holds a quote or a part of a line break. -/
theorem bare (other : isPlainChar char = false) :
    ∀ text ∈ sent.name.toList ++ (sent.filename.toList ++ sent.contentType.toList),
      char ∉ text := by
  have clean : ∀ field : Option (List Char), field.all (·.all isPlainChar) →
      ∀ text ∈ field.toList, char ∉ text := by
    intro field all text member inside
    rw [Option.mem_toList.mp member] at all
    rw [List.all_eq_true.mp all char inside] at other
    cases other
  have plain := sent.plain
  simp only [Bool.and_eq_true] at plain
  obtain ⟨⟨⟨name, filename⟩, contentType⟩, -⟩ := plain
  exact List.forall_mem_append.mpr ⟨clean _ name,
    List.forall_mem_append.mpr ⟨clean _ filename, clean _ contentType⟩⟩

theorem name_bare (other : isPlainChar char = false) :
    ∀ name ∈ sent.name, char ∉ name := fun _ here =>
  sent.bare other _ (List.mem_append_left _ (Option.mem_toList.mpr here))

theorem filename_bare (other : isPlainChar char = false) :
    ∀ filename ∈ sent.filename, char ∉ filename := fun _ here =>
  sent.bare other _
    (List.mem_append_right _ (List.mem_append_left _ (Option.mem_toList.mpr here)))

theorem contentType_bare (other : isPlainChar char = false) :
    ∀ contentType ∈ sent.contentType, char ∉ contentType := fun _ here =>
  sent.bare other _
    (List.mem_append_right _ (List.mem_append_right _ (Option.mem_toList.mpr here)))

theorem mem_params {part : List Char} : part ∈ sent.params ↔
    (∃ name ∈ sent.name, part = param " name".toList name) ∨
      ∃ filename ∈ sent.filename, part = param " filename".toList filename := by
  simp only [params, List.mem_append, List.mem_map, Option.mem_toList, Option.mem_def, eq_comm]

theorem mem_others {line : List Char} : line ∈ sent.others ↔
    (∃ contentType ∈ sent.contentType, line = "Content-Type: ".toList ++ contentType) ∨
      line ∈ sent.more := by
  simp only [others, List.mem_append, List.mem_map, Option.mem_toList, Option.mem_def, eq_comm]

/-- No line of the header is empty or holds a part of a line break. -/
theorem line_clean : ∀ line ∈ sent.lines, line ≠ [] ∧ '\r' ∉ line ∧ '\n' ∉ line := by
  have returned : isPlainChar '\r' = false := rfl
  have ended : isPlainChar '\n' = false := rfl
  have apart {char : Char} {key value : List Char} (quoteless : char ∉ ['=', '"'])
      (first : char ∉ key) (second : char ∉ value) : char ∉ param key value := by
    simp_all [param]
  intro line member
  rcases List.mem_cons.mp member with rfl | member
  · refine ⟨fun empty => ?_, fun inside => ?_, fun inside => ?_⟩
    · exact absurd (List.append_eq_nil_iff.mp empty).1 (by decide)
    all_goals
      rcases List.mem_append.mp inside with opening | inside
      · exact absurd opening (by decide)
      · obtain ⟨part, listed, inside⟩ := List.mem_flatMap.mp inside
        rcases List.mem_cons.mp inside with wrong | inside
        · exact absurd wrong (by decide)
        · rcases sent.mem_params.mp listed with ⟨text, given, rfl⟩ | ⟨text, given, rfl⟩
          · exact apart (by decide) (by decide) (sent.name_bare (by rfl) text given) inside
          · exact apart (by decide) (by decide) (sent.filename_bare (by rfl) text given) inside
  · rcases sent.mem_others.mp member with ⟨contentType, given, rfl⟩ | further
    · refine ⟨fun empty => ?_, fun inside => ?_, fun inside => ?_⟩
      · exact absurd (List.append_eq_nil_iff.mp empty).1 (by decide)
      all_goals
        rcases List.mem_append.mp inside with opening | inside
        · exact absurd opening (by decide)
        · exact sent.contentType_bare (by rfl) contentType given inside
    · exact (isFurther_spec (sent.further line further)).1

theorem chunk_eq : sent.chunk = sent.front ++ sent.content ++ crlf := rfl

theorem front_eq : sent.front = crlf ++ (Utf8.encode sent.head ++ (crlf ++ crlf)) := by
  simp [front]

theorem lines_head : Text.lines sent.head = sent.lines := Text.lines_breaks sent.line_clean

end Sent

theorem encode_breaks (line : List Char) (others : List (List Char)) :
    Utf8.encode (line ++ others.flatMap ("\r\n".toList ++ ·)) =
      Utf8.encode line ++ others.flatMap (crlf ++ Utf8.encode ·) := by
  induction others generalizing line with
  | nil => simp
  | cons other others ih =>
      rw [List.flatMap_cons, ← List.append_assoc, ih, List.flatMap_cons, Utf8.encode_append,
        Utf8.encode_append]
      simp only [List.append_assoc]
      rfl

/-- Between lines no two line breaks stand together. -/
theorem not_infix_breaks {line : List Char} {others : List (List Char)}
    (clean : ∀ text ∈ line :: others, text ≠ [] ∧ '\r' ∉ text ∧ '\n' ∉ text) :
    ¬crlf ++ crlf <:+: Utf8.encode line ++ others.flatMap (crlf ++ Utf8.encode ·) ++
      [13, 10, 13] := by
  have returnless : ∀ text ∈ line :: others, 13 ∉ Utf8.encode text := by
    intro text member
    rw [show (13 : UInt8) = UInt8.ofNat '\r'.toNat from rfl, Utf8.mem_encode_iff (by decide)]
    exact (clean text member).2.1
  change ¬[13, 10, 13, 10] <:+: _
  induction others generalizing line with
  | nil =>
      rw [List.flatMap_nil, List.append_nil, Search.infix_skip (returnless _ List.mem_cons_self)]
      decide
  | cons other others ih =>
      obtain ⟨-, later⟩ := List.forall_mem_cons.mp clean
      obtain ⟨first, returnless⟩ := List.forall_mem_cons.mp returnless
      have there := ih later returnless
      obtain ⟨char, text, rfl⟩ := List.exists_cons_of_ne_nil (later other List.mem_cons_self).1
      obtain ⟨byte, bytes, starts⟩ : ∃ byte bytes, Utf8.encode (char :: text) = byte :: bytes :=
        List.exists_cons_of_ne_nil (by simp [Utf8.encode])
      have returned : byte ≠ 13 := by
        rintro rfl
        exact returnless _ List.mem_cons_self (by rw [starts]; exact List.mem_cons_self)
      rw [List.flatMap_cons, List.append_assoc, List.append_assoc, List.append_assoc,
        Search.infix_skip first]
      rw [List.append_assoc] at there
      rw [starts] at there ⊢
      change ¬[13, 10, 13, 10] <:+: 13 :: 10 :: (byte :: bytes ++ _)
      rw [List.infix_cons_iff, List.infix_cons_iff]
      rintro (whole | later | behind)
      · have third := (List.cons_prefix_cons.mp (List.cons_prefix_cons.mp whole).2).2
        exact returned (List.cons_prefix_cons.mp third).1.symm
      · exact absurd (List.cons_prefix_cons.mp later).1 (by decide)
      · exact there behind

namespace Sent

variable (sent : Sent)

theorem encode_head : Utf8.encode sent.head =
    Utf8.encode sent.disposition ++ sent.others.flatMap (crlf ++ Utf8.encode ·) :=
  encode_breaks _ _

/-- The header ends where two line breaks stand first. -/
theorem block_head : Search.Block (crlf ++ crlf) (Utf8.encode sent.head ++ (crlf ++ crlf)) := by
  refine ⟨⟨_, rfl⟩, ?_⟩
  rw [List.dropLast_append_of_ne_nil (by decide), encode_head]
  exact not_infix_breaks sent.line_clean

/-- What is stripped to a header and some content is read so. -/
theorem readPart_stripped (keepFiles : Bool) {chunk content : List UInt8}
    (stripped : stripEnd crlf (stripStart crlf chunk) =
      Utf8.encode sent.head ++ (crlf ++ crlf) ++ content) :
    readPart keepFiles chunk = some (partOf keepFiles (sent.lines.foldl readLine {}) content) := by
  have found := sent.block_head.find (by decide) content
  rw [List.length_append, Nat.add_sub_cancel] at found
  have front : (Utf8.encode sent.head ++ (crlf ++ crlf) ++ content).take
      (Utf8.encode sent.head).length = Utf8.encode sent.head := by
    rw [List.append_assoc, List.take_left]
  have back : (Utf8.encode sent.head ++ (crlf ++ crlf) ++ content).drop
      ((Utf8.encode sent.head).length + 4) = content := by
    rw [show (Utf8.encode sent.head).length + 4 =
      (Utf8.encode sent.head ++ (crlf ++ crlf)).length by rw [List.length_append]; rfl,
      List.drop_left]
  simp only [readPart, stripped, found, Option.map_some, front, back, Utf8.fromUtf8Lossy_encode,
    sent.lines_head]

/-- A part that is cut off by its delimiters is read with its own header and content. -/
theorem readPart_chunk (keepFiles : Bool) : readPart keepFiles sent.chunk =
    some (partOf keepFiles (sent.lines.foldl readLine {}) sent.content) := by
  refine sent.readPart_stripped keepFiles ?_
  have whole : sent.chunk =
      crlf ++ (Utf8.encode sent.head ++ (crlf ++ crlf) ++ sent.content ++ crlf) := by
    simp [chunk]
  rw [whole, stripStart_append, stripEnd_append]

end Sent

theorem readLine_contentType (fields : Fields) (contentType : List Char) :
    readLine fields ("Content-Type: ".toList ++ contentType) =
      { fields with contentType := some (Text.trim contentType) } := by
  have split : Text.splitOnce ':' ("Content-Type: ".toList ++ contentType) =
      some ("Content-Type".toList, ' ' :: contentType) :=
    @Text.splitOnce_append ':' "Content-Type".toList (by decide) (' ' :: contentType)
  have key : Text.toAsciiLowercase (Text.trim "Content-Type".toList) = "content-type".toList := by
    decide
  have spaced : Text.trim (' ' :: contentType) = Text.trim contentType := by
    rw [Text.trim, List.dropWhile_cons_of_pos (by decide), ← Text.trim]
  simp only [readLine, split, key, if_true, spaced]

/-- A parameter in quotes is read without them. -/
theorem readParam_param (fields : Fields) {key value : List Char} (plain : '=' ∉ key)
    (bare : '"' ∉ value) :
    readParam fields (param key value) =
      if Text.trim key = "name".toList then { fields with name := some value }
      else if Text.trim key = "filename".toList then { fields with filename := some value }
      else fields := by
  simp only [readParam, param, Text.splitOnce_append plain, trim_quoted, trimMatches_quoted bare]

namespace Sent

variable (sent : Sent)

theorem params_single (joined : ∀ text ∈ sent.name.toList ++ sent.filename.toList, ';' ∉ text) :
    ∀ part ∈ sent.params, ';' ∉ part := by
  have single {key value : List Char} (key_single : ';' ∉ key) (value_single : ';' ∉ value) :
      ';' ∉ param key value := by
    simp [param, key_single, value_single]
  obtain ⟨name, filename⟩ := List.forall_mem_append.mp joined
  intro part member
  rcases sent.mem_params.mp member with ⟨text, given, rfl⟩ | ⟨text, given, rfl⟩
  · exact single (by decide) (name text (Option.mem_toList.mpr given))
  · exact single (by decide) (filename text (Option.mem_toList.mpr given))

theorem splitOnce_disposition : Text.splitOnce ':' sent.disposition =
    some ("Content-Disposition".toList, " form-data".toList ++ sent.params.flatMap (';' :: ·)) :=
  @Text.splitOnce_append ':' "Content-Disposition".toList (by decide)
    (" form-data".toList ++ sent.params.flatMap (';' :: ·))

theorem readLine_disposition : readLine {} sent.disposition =
    (((" form-data".toList ++ sent.params.flatMap (';' :: ·)).splitOn ';').drop 1).foldl
      readParam {} := by
  have key : Text.toAsciiLowercase (Text.trim "Content-Disposition".toList) =
      "content-disposition".toList := by decide
  have other : ("content-disposition".toList = "content-type".toList) = False := by
    decide
  simp only [readLine, splitOnce_disposition, key, other, if_false, if_true]

/-- The parameters of the disposition are told apart if no name holds a semicolon. -/
theorem read_disposition (joined : ∀ text ∈ sent.name.toList ++ sent.filename.toList, ';' ∉ text) :
    readLine {} sent.disposition = ⟨sent.name, sent.filename, none⟩ := by
  have name_read : (sent.name.toList.map (param " name".toList)).foldl readParam {} =
      { name := sent.name } := by
    cases given : sent.name with
    | none => rfl
    | some name =>
        change readParam _ (param " name".toList name) = _
        rw [readParam_param _ (by decide) (sent.name_bare rfl name given), if_pos (by decide)]
  have filename_read : (sent.filename.toList.map (param " filename".toList)).foldl readParam
      { name := sent.name } = ⟨sent.name, sent.filename, none⟩ := by
    cases given : sent.filename with
    | none => rfl
    | some filename =>
        change readParam _ (param " filename".toList filename) = _
        rw [readParam_param _ (by decide) (sent.filename_bare rfl filename given),
          if_neg (by decide), if_pos (by decide)]
  rw [readLine_disposition, Text.splitOn_flatMap (by decide) (sent.params_single joined),
    List.drop_one, List.tail_cons, params, List.foldl_append, name_read, filename_read]

/-- The header is read as it was meant if no name holds a semicolon and the type is trimmed. -/
theorem read_lines (joined : ∀ text ∈ sent.name.toList ++ sent.filename.toList, ';' ∉ text)
    (trimmed : ∀ text ∈ sent.contentType, Text.trim text = text) :
    sent.lines.foldl readLine {} = sent.fields := by
  rw [lines, List.foldl_cons, sent.read_disposition joined, others, List.foldl_append,
    foldl_readLine_further sent.further]
  cases given : sent.contentType with
  | none => simp [fields, given]
  | some contentType =>
      change readLine _ ("Content-Type: ".toList ++ contentType) = _
      rw [readLine_contentType, trimmed contentType given, fields, given]

end Sent

end Multipart
end Fghj
