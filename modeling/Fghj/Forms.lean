import Fghj.Multipart
import Mathlib.Data.List.Forall2

/-!
# Forms

A form in the standard way is cut wherever the delimiter stands. Its parts are shown as they were
sent if that is between them only, no name holds a semicolon and no type is padded. Otherwise some
field differs, or less is shown than was sent.
-/

namespace Fghj
namespace Multipart

open Traffic (Part multipartBoundary)

/-- A part is shown as it was sent. -/
structure Shown (keepFiles : Bool) (sent : Sent) (part : Part) : Prop where
  name : part.name = sent.name.map String.ofList
  filename : part.filename = sent.filename.map String.ofList
  contentType : part.contentType = sent.contentType.map String.ofList
  size : part.size = sent.content.length
  text : (!sent.fields.isFile || keepFiles) = true → ∀ text, sent.content = Utf8.encode text →
    '\x00' ∉ text → part.text = some (String.ofList text)

/-- The delimiter stands nowhere in the part, no semicolon in its names, and no space at either end
of its type. -/
structure Plain (boundary : Boundary) (sent : Sent) : Prop where
  joined : ∀ text ∈ sent.name.toList ++ sent.filename.toList, ';' ∉ text
  trimmed : ∀ text ∈ sent.contentType, Text.trim text = text
  fields : ∀ text ∈ sent.name.toList ++ (sent.filename.toList ++ sent.contentType.toList),
    ¬boundary.dashes <:+: text
  content : ¬boundary.delimiter <:+: sent.content

/-! ## The delimiter between the parts -/

section Delimiter

variable {boundary : Boundary}

/-- A line break keeps the delimiter on one side. -/
theorem infix_crlf {front back : List UInt8} : boundary.delimiter <:+: front ++ (crlf ++ back) ↔
    boundary.delimiter <:+: front ∨ boundary.delimiter <:+: back := by
  have newline : boundary.delimiter <:+: 10 :: back ↔ boundary.delimiter <:+: back := by
    have nothing : ¬boundary.delimiter <:+: [] := by simp [boundary.solid]
    have apart := @Search.infix_separated _ _ _ boundary.newline_not_mem [] back
    rw [List.nil_append] at apart
    rw [apart, or_iff_right nothing]
  change boundary.delimiter <:+: front ++ 13 :: 10 :: back ↔ _
  rw [Search.infix_separated boundary.return_not_mem, newline]

/-- What stands before a line break does not make the delimiter stand earlier. -/
theorem block_crlf {front back : List UInt8} (absent : ¬boundary.delimiter <:+: front)
    (ends : Search.Block boundary.delimiter (back ++ boundary.delimiter)) :
    Search.Block boundary.delimiter (front ++ (crlf ++ back) ++ boundary.delimiter) := by
  refine ⟨⟨_, rfl⟩, ?_⟩
  have first := ends.2
  rw [List.dropLast_append_of_ne_nil boundary.solid] at first ⊢
  rw [List.append_assoc, List.append_assoc, infix_crlf]
  exact not_or_intro absent first

theorem block_delimiter : Search.Block boundary.delimiter ([] ++ boundary.delimiter) :=
  ⟨⟨[], rfl⟩, Search.not_infix_dropLast boundary.solid⟩

theorem three_le_delimiter : 3 ≤ boundary.delimiter.length := by
  have some : boundary.chars ≠ [] := by
    intro empty
    have allowed := boundary.allowed
    simp [empty] at allowed
  obtain ⟨char, chars, whole⟩ := List.exists_cons_of_ne_nil some
  have one := String.length_utf8EncodeChar char
  have utf8 := Char.utf8Size_pos char
  rw [Boundary.delimiter, Boundary.dashes, whole, Utf8.encode_append]
  simp only [Utf8.encode, List.flatMap_cons, List.length_append]
  change 3 ≤ 2 + _
  omega

theorem not_infix_closing : ¬boundary.delimiter <:+: [45, 45] ++ crlf := by
  intro inside
  rw [← List.append_nil crlf, infix_crlf] at inside
  rcases inside with front | back
  · have long := @three_le_delimiter boundary
    have short := front.length_le
    simp only [List.length_cons, List.length_nil] at short
    omega
  · simp [boundary.solid] at back

/-- No field holds the delimiter. -/
def Fielded (boundary : Boundary) (sent : Sent) : Prop :=
  ∀ text ∈ sent.name.toList ++ (sent.filename.toList ++ sent.contentType.toList),
    ¬boundary.dashes <:+: text

instance (boundary : Boundary) (sent : Sent) : Decidable (Fielded boundary sent) :=
  inferInstanceAs (Decidable (∀ _ ∈ _, ¬_))

theorem not_infix_literal {text : List Char} (single : ¬"--".toList <:+: text) :
    ¬boundary.dashes <:+: text := fun inside =>
  single ((List.prefix_append _ _).isInfix.trans inside)

theorem not_infix_disposition {sent : Sent}
    (name : ∀ text ∈ sent.name, ¬boundary.dashes <:+: text)
    (filename : ∀ text ∈ sent.filename, ¬boundary.dashes <:+: text) :
    ¬boundary.dashes <:+: sent.disposition := by
  have quoteless : '"' ∉ boundary.dashes := boundary.not_mem_dashes rfl
  have separate : ';' ∉ boundary.dashes := boundary.not_mem_dashes (by decide)
  have param_absent {key value : List Char} (key_absent : ¬"--".toList <:+: key ++ ['='])
      (value_absent : ¬boundary.dashes <:+: value) : ¬boundary.dashes <:+: param key value := by
    have whole : param key value = (key ++ ['=']) ++ '"' :: (value ++ '"' :: []) := by
      simp [param]
    rw [whole, Search.infix_separated quoteless, Search.infix_separated quoteless]
    exact not_or_intro (not_infix_literal key_absent)
      (not_or_intro value_absent (not_infix_literal (by decide)))
  have params : ∀ part ∈ sent.params, ¬boundary.dashes <:+: part := by
    intro part member
    rcases sent.mem_params.mp member with ⟨text, given, rfl⟩ | ⟨text, given, rfl⟩
    · exact param_absent (by decide) (name text given)
    · exact param_absent (by decide) (filename text given)
  have opening : ¬boundary.dashes <:+: "Content-Disposition: form-data".toList :=
    not_infix_literal (by decide)
  have joined : ¬boundary.dashes <:+:
      "Content-Disposition: form-data".toList ++ sent.params.flatMap ([';'] ++ ·) :=
    Search.not_infix_joined (Search.infix_separated separate)
      (List.forall_mem_cons.mpr ⟨opening, params⟩)
  exact joined

theorem not_infix_contentType {contentType : List Char}
    (absent : ¬boundary.dashes <:+: contentType) :
    ¬boundary.dashes <:+: "Content-Type: ".toList ++ contentType := by
  have whole : "Content-Type: ".toList ++ contentType =
      "Content".toList ++ ('-' :: ("Type: ".toList ++ contentType)) := by
    have literal : "Content-Type: ".toList = "Content".toList ++ '-' :: "Type: ".toList := by
      decide
    rw [literal, List.append_assoc, List.cons_append]
  rw [whole]
  change ¬('-' :: '-' :: boundary.chars) <:+: _
  rw [Search.infix_skip (by decide), List.infix_cons_iff, Search.infix_skip (by decide)]
  rintro (here | later)
  · have second := (List.cons_prefix_cons.mp here).2
    change _ <+: 'T' :: _ at second
    exact absurd (List.cons_prefix_cons.mp second).1 (by decide)
  · exact absent later

/-- The delimiter stands nowhere in the header of a part none of whose fields holds it. -/
theorem not_infix_head {sent : Sent} (fielded : Fielded boundary sent) :
    ¬boundary.delimiter <:+: Utf8.encode sent.head := by
  obtain ⟨name, others⟩ := List.forall_mem_append.mp fielded
  obtain ⟨filename, contentType⟩ := List.forall_mem_append.mp others
  have absent {line : List Char} (absent : ¬boundary.dashes <:+: line) :
      ¬boundary.delimiter <:+: Utf8.encode line := by
    rwa [Boundary.delimiter, Utf8.encode_infix_iff]
  have first : ¬boundary.delimiter <:+: Utf8.encode sent.disposition :=
    absent (not_infix_disposition (fun text given => name text (Option.mem_toList.mpr given))
      fun text given => filename text (Option.mem_toList.mpr given))
  have later : ∀ line ∈ sent.others, ¬boundary.delimiter <:+: Utf8.encode line := by
    intro line member
    rcases sent.mem_others.mp member with ⟨text, given, rfl⟩ | further
    · exact absent (not_infix_contentType (contentType text (Option.mem_toList.mpr given)))
    · exact absent (not_infix_literal (isFurther_spec (sent.further line further)).2.1)
  rw [sent.encode_head, ← List.flatMap_map Utf8.encode (crlf ++ ·)]
  exact Search.not_infix_joined infix_crlf
    (List.forall_mem_cons.mpr ⟨first, List.forall_mem_map.mpr later⟩)

end Delimiter

/-! ## Reading a form -/

/-- What follows the first delimiter of a form. -/
def behind (boundary : Boundary) : List Sent → List UInt8
  | [] => [45, 45] ++ crlf
  | sent :: parts => sent.chunk ++ boundary.delimiter ++ behind boundary parts

/-- The parts that are read from behind a delimiter. -/
def readBehind (boundary : Boundary) (keepFiles : Bool) (bytes : List UInt8) : List Part :=
  readParts keepFiles (Search.pieces boundary.delimiter bytes)

section Reading

variable {boundary : Boundary} {keepFiles : Bool}

theorem encode_eq (parts : List Sent) :
    encode boundary parts = boundary.delimiter ++ behind boundary parts := by
  induction parts with
  | nil => simp [encode, behind]
  | cons sent parts ih =>
      have first : encode boundary (sent :: parts) =
          boundary.delimiter ++ sent.chunk ++ encode boundary parts := by
        simp [encode]
      rw [first, ih, behind]
      simp only [List.append_assoc]

theorem parseMultipart_delimiter (bytes : List UInt8) :
    parseMultipart (boundary.delimiter ++ bytes) (String.ofList boundary.chars) keepFiles =
      readBehind boundary keepFiles bytes := by
  have pattern : Utf8.encode ("--".toList ++ (String.ofList boundary.chars).toList) =
      boundary.delimiter :=
    congrArg (fun chars => Utf8.encode ("--".toList ++ chars)) String.toList_ofList
  have pieces := Search.pieces_of_block boundary.solid block_delimiter bytes
  rw [List.nil_append] at pieces
  rw [parseMultipart, pattern, pieces, List.drop_one, List.tail_cons, readBehind]

theorem readBehind_closing : readBehind boundary keepFiles (behind boundary []) = [] := by
  rw [readBehind, behind, Search.pieces_of_absent boundary.solid not_infix_closing, readParts,
    if_pos (List.prefix_append _ _)]

/-- Before a delimiter stands one part, or the form ends there. -/
theorem readBehind_block {front : List UInt8}
    (ends : Search.Block boundary.delimiter (front ++ boundary.delimiter)) (rest : List UInt8) :
    readBehind boundary keepFiles (front ++ boundary.delimiter ++ rest) =
      if [45, 45] <+: front then []
      else (readPart keepFiles front).toList ++ readBehind boundary keepFiles rest := by
  rw [readBehind, Search.pieces_of_block boundary.solid ends, readParts]
  rfl

theorem not_closing (back : List UInt8) : ¬[45, 45] <+: crlf ++ back := by
  intro starts
  exact absurd (List.cons_prefix_cons.mp starts).1 (by decide)

theorem not_closing_front (sent : Sent) (back : List UInt8) : ¬[45, 45] <+: sent.front ++ back := by
  rw [sent.front_eq, List.append_assoc]
  exact not_closing _

theorem not_infix_front {sent : Sent} (fielded : Fielded boundary sent) {back : List UInt8}
    (absent : ¬boundary.delimiter <:+: back) :
    ¬boundary.delimiter <:+: sent.front ++ back := by
  have empty : ¬boundary.delimiter <:+: [] := by simp [boundary.solid]
  have whole : sent.front ++ back =
      [] ++ (crlf ++ (Utf8.encode sent.head ++ (crlf ++ ([] ++ (crlf ++ back))))) := by
    simp [sent.front_eq]
  rw [whole, infix_crlf, infix_crlf, infix_crlf]
  exact not_or_intro empty (not_or_intro (not_infix_head fielded) (not_or_intro empty absent))

/-- Behind the header of a part the delimiter stands first where it does in what follows. -/
theorem block_front {sent : Sent} (fielded : Fielded boundary sent) {back : List UInt8}
    (ends : Search.Block boundary.delimiter (back ++ boundary.delimiter)) :
    Search.Block boundary.delimiter (sent.front ++ back ++ boundary.delimiter) := by
  have absent : ¬boundary.delimiter <:+: crlf ++ Utf8.encode sent.head ++ crlf := by
    have nothing : ¬boundary.delimiter <:+: [] := by simp [boundary.solid]
    intro early
    refine not_infix_front fielded nothing (early.trans ?_)
    rw [List.append_nil]
    exact (List.prefix_append _ _).isInfix
  have block := block_crlf absent ends
  rwa [← List.append_assoc (crlf ++ Utf8.encode sent.head ++ crlf)] at block

/-- A part that the delimiter stands nowhere in is read by itself. -/
theorem readBehind_sent {sent : Sent} (fielded : Fielded boundary sent)
    (content : ¬boundary.delimiter <:+: sent.content) (rest : List UInt8) :
    readBehind boundary keepFiles (sent.chunk ++ boundary.delimiter ++ rest) =
      partOf keepFiles (sent.lines.foldl readLine {}) sent.content ::
        readBehind boundary keepFiles rest := by
  have ends := block_crlf (not_infix_front fielded content) block_delimiter
  rw [List.append_nil, ← sent.chunk_eq] at ends
  have opens : ¬[45, 45] <+: sent.chunk := by
    rw [sent.chunk_eq, List.append_assoc]
    exact not_closing_front sent _
  rw [readBehind_block ends, sent.readPart_chunk, if_neg opens, Option.toList_some,
    List.singleton_append]

/-- A form none of whose parts holds the delimiter is read part by part. -/
theorem parse_of_plain {parts : List Sent} (plain : ∀ sent ∈ parts, Plain boundary sent) :
    readBehind boundary keepFiles (behind boundary parts) =
      parts.map fun sent => partOf keepFiles sent.fields sent.content := by
  induction parts with
  | nil => exact readBehind_closing
  | cons sent parts ih =>
      obtain ⟨first, others⟩ := List.forall_mem_cons.mp plain
      rw [behind, readBehind_sent first.fields first.content, ih others,
        sent.read_lines first.joined first.trimmed, List.map_cons]

/-- What is read of the fields and content of a part shows the part. -/
theorem shown_partOf (sent : Sent) :
    Shown keepFiles sent (partOf keepFiles sent.fields sent.content) where
  name := rfl
  filename := rfl
  contentType := rfl
  size := rfl
  text := by
    intro kept text whole clean
    have read : textOf sent.content = some text := by
      simp [textOf, whole, clean]
    rw [partOf, if_pos kept, read]
    rfl

end Reading

/-! ## Sizes of what is read -/

variable {part : Part}

section Sizes

variable {boundary : Boundary} {keepFiles : Bool}

theorem stripStart_suffix (pattern text : List UInt8) : stripStart pattern text <:+ text := by
  rw [stripStart]
  split_ifs
  · exact List.drop_suffix _ _
  · exact List.suffix_rfl

theorem stripEnd_front (pattern text : List UInt8) : stripEnd pattern text <+: text := by
  rw [stripEnd]
  split_ifs
  · exact List.take_prefix _ _
  · exact List.prefix_rfl

/-- A part has its fields from before two line breaks and its content from behind them. -/
theorem readPart_eq_some {chunk : List UInt8} (read : readPart keepFiles chunk = some part) :
    ∃ inner place, inner = stripEnd crlf (stripStart crlf chunk) ∧
      Search.find (crlf ++ crlf) inner = some place ∧
      part = partOf keepFiles
        ((Text.lines (Utf8.fromUtf8Lossy (inner.take place))).foldl readLine {})
        (inner.drop (place + 4)) := by
  obtain ⟨place, found, rfl⟩ := Option.map_eq_some_iff.mp read
  exact ⟨_, place, rfl, found, rfl⟩

theorem readPart_size {chunk : List UInt8} (read : readPart keepFiles chunk = some part) :
    part.size + 4 ≤ chunk.length := by
  obtain ⟨inner, place, inner_eq, found, rfl⟩ := readPart_eq_some read
  have inside := Search.find_place_lt (by decide) found
  have short : inner.length ≤ chunk.length := by
    rw [inner_eq]
    exact (stripEnd_front _ _).length_le.trans (stripStart_suffix _ _).length_le
  change (inner.drop (place + 4)).length + 4 ≤ _
  change place + 4 ≤ _ at inside
  rw [List.length_drop]
  omega

/-- Behind a header, no part is larger than what stands there. -/
theorem readPart_front_size (sent : Sent) {chunk back : List UInt8}
    (starts : chunk <+: sent.front ++ back) (read : readPart keepFiles chunk = some part) :
    part.size + sent.front.length ≤ chunk.length := by
  have long := readPart_size read
  obtain ⟨inner, place, inner_eq, found, rfl⟩ := readPart_eq_some read
  rw [sent.front_eq, List.append_assoc] at starts
  obtain ⟨after, rfl⟩ : crlf <+: chunk :=
    List.prefix_of_prefix_length_le (List.prefix_append _ _) starts
      (show 2 ≤ _ by omega)
  have after_starts : after <+: Utf8.encode sent.head ++ (crlf ++ crlf) ++ back := by
    simpa using starts
  have inner_starts : inner <+: after := by
    rw [inner_eq, stripStart_append]
    exact stripEnd_front _ _
  -- the breaks that are found are those behind the header
  have here := Search.find_of_prefix (by decide) found (inner_starts.trans after_starts)
  rw [sent.block_head.find (by decide), List.length_append, Nat.add_sub_cancel] at here
  obtain rfl := Option.some.inj here
  have short := inner_starts.length_le
  have inside := Search.find_place_lt (by decide) found
  change (inner.drop (_ + 4)).length + _ ≤ _
  change _ + 4 ≤ _ at inside
  simp only [sent.front_eq, List.length_append, List.length_drop]
  change _ + (2 + (_ + 4)) ≤ 2 + _
  omega

/-- The bytes that some parts hold. -/
def total (parts : List Part) : Nat := (parts.map Part.size).sum

@[simp]
theorem total_nil : total [] = 0 := rfl

@[simp]
theorem total_cons (part : Part) (parts : List Part) :
    total (part :: parts) = part.size + total parts := rfl

theorem total_append (parts others : List Part) :
    total (parts ++ others) = total parts + total others := by
  simp [total]

/-- Of what stands before the first delimiter, no more than one part is read. -/
theorem total_readBehind_block {front : List UInt8}
    (ends : Search.Block boundary.delimiter (front ++ boundary.delimiter)) (rest : List UInt8) :
    total (readBehind boundary keepFiles (front ++ boundary.delimiter ++ rest)) ≤
      total (readPart keepFiles front).toList + total (readBehind boundary keepFiles rest) := by
  rw [readBehind_block ends]
  split_ifs
  · exact Nat.zero_le _
  · rw [total_append]

theorem total_readPart_le (chunk : List UInt8) :
    total (readPart keepFiles chunk).toList ≤ chunk.length - 4 := by
  cases read : readPart keepFiles chunk with
  | none => exact Nat.zero_le _
  | some part =>
      have size := readPart_size read
      change part.size ≤ _
      omega

/-- Behind a header, no more is read than what stands there. -/
theorem total_readPart_front_le (sent : Sent) {chunk back : List UInt8}
    (starts : chunk <+: sent.front ++ back) :
    total (readPart keepFiles chunk).toList ≤ chunk.length - sent.front.length := by
  cases read : readPart keepFiles chunk with
  | none => exact Nat.zero_le _
  | some part =>
      have size := readPart_front_size sent starts read
      change part.size ≤ _
      omega

/-- Nothing is read twice. -/
theorem total_readBehind_le (content rest : List UInt8) :
    total (readBehind boundary keepFiles (content ++ crlf ++ boundary.delimiter ++ rest)) ≤
      content.length + total (readBehind boundary keepFiles rest) := by
  induction sized : content.length using Nat.strong_induction_on generalizing content with
  | _ size ih =>
      subst sized
      by_cases inside : boundary.delimiter <:+: content
      · obtain ⟨front, back, rfl, ends⟩ := Search.exists_block boundary.solid inside
        have shorter : back.length < (front ++ boundary.delimiter ++ back).length := by
          have long := List.length_pos_of_ne_nil boundary.solid
          simp only [List.length_append]
          omega
        have later := ih back.length shorter back rfl
        have first := @total_readBehind_block _ keepFiles _ ends
          (back ++ crlf ++ boundary.delimiter ++ rest)
        have here := @total_readPart_le keepFiles front
        have whole : front ++ boundary.delimiter ++ back ++ crlf ++ boundary.delimiter ++ rest =
            front ++ boundary.delimiter ++ (back ++ crlf ++ boundary.delimiter ++ rest) := by
          simp
        rw [whole]
        simp only [List.length_append] at later ⊢
        omega
      · have ends := block_crlf inside block_delimiter
        rw [List.append_nil] at ends
        have first := @total_readBehind_block _ keepFiles _ ends rest
        have here := @total_readPart_le keepFiles (content ++ crlf)
        rw [List.length_append] at here
        change _ ≤ content.length + 2 - 4 at here
        omega

/-- Less is read of a part that the delimiter stands in than was sent. -/
theorem total_readBehind_lt {sent : Sent} (fielded : Fielded boundary sent)
    (inside : boundary.delimiter <:+: sent.content) (rest : List UInt8) :
    total (readBehind boundary keepFiles (sent.chunk ++ boundary.delimiter ++ rest)) +
        boundary.delimiter.length ≤
      sent.content.length + total (readBehind boundary keepFiles rest) := by
  obtain ⟨front, back, split, ends⟩ := Search.exists_block boundary.solid inside
  have first := @total_readBehind_block _ keepFiles _ (block_front fielded ends)
    (back ++ crlf ++ boundary.delimiter ++ rest)
  have whole : sent.chunk ++ boundary.delimiter ++ rest = sent.front ++ front ++
      boundary.delimiter ++ (back ++ crlf ++ boundary.delimiter ++ rest) := by
    rw [sent.chunk_eq, split]
    simp only [List.append_assoc]
  have here := @total_readPart_front_le keepFiles sent (sent.front ++ front) _ List.prefix_rfl
  have later := @total_readBehind_le boundary keepFiles back rest
  rw [whole, split]
  simp only [List.length_append] at here ⊢
  omega

/-- No more is read of a form than was sent, and as much only if the delimiter stands in no part. -/
theorem total_le {parts : List Sent} (fielded : ∀ sent ∈ parts, Fielded boundary sent) :
    total (readBehind boundary keepFiles (behind boundary parts)) ≤
        (parts.map fun sent => sent.content.length).sum ∧
      (total (readBehind boundary keepFiles (behind boundary parts)) =
          (parts.map fun sent => sent.content.length).sum →
        ∀ sent ∈ parts, ¬boundary.delimiter <:+: sent.content) := by
  induction parts with
  | nil =>
      rw [readBehind_closing]
      exact ⟨Nat.le_refl _, fun _ sent member => absurd member List.not_mem_nil⟩
  | cons sent parts ih =>
      obtain ⟨first, others⟩ := List.forall_mem_cons.mp fielded
      obtain ⟨at_most, exactly⟩ := ih others
      rw [List.map_cons, List.sum_cons]
      rw [behind]
      by_cases inside : boundary.delimiter <:+: sent.content
      · have less := @total_readBehind_lt _ keepFiles _ first inside (behind boundary parts)
        have long := List.length_pos_of_ne_nil boundary.solid
        exact ⟨by omega, fun same => by omega⟩
      · have same : total (readBehind boundary keepFiles
            (sent.chunk ++ boundary.delimiter ++ behind boundary parts)) =
            sent.content.length +
              total (readBehind boundary keepFiles (behind boundary parts)) := by
          rw [readBehind_sent first inside]
          rfl
        refine ⟨by omega, fun all => List.forall_mem_cons.mpr ⟨inside, exactly ?_⟩⟩
        omega

end Sizes

/-! ## Fields of what is read -/

variable {fields : Fields}

section Fields

variable {boundary : Boundary} {keepFiles : Bool}

/-- No name holds a semicolon, the type is trimmed, and the delimiter stands in none of them. -/
structure Clean (boundary : Boundary) (fields : Fields) : Prop where
  names : ∀ text ∈ fields.name.toList ++ fields.filename.toList,
    ';' ∉ text ∧ ¬boundary.dashes <:+: text
  contentType : ∀ text ∈ fields.contentType, Text.trim text = text ∧ ¬boundary.dashes <:+: text

theorem clean_nothing : Clean boundary {} where
  names := fun _ member => absurd member List.not_mem_nil
  contentType := fun _ none => absurd none (by simp)

theorem trimMatches_within (char : Char) (text : List Char) : trimMatches char text <:+: text := by
  rw [trimMatches, ← List.reverse_infix, List.reverse_reverse]
  refine (List.dropWhile_suffix _).isInfix.trans ?_
  rw [List.reverse_infix]
  exact (List.dropWhile_suffix _).isInfix

theorem Clean.readParam (clean : Clean boundary fields) {param : List Char} (single : ';' ∉ param)
    (absent : ¬boundary.dashes <:+: param) : Clean boundary (readParam fields param) := by
  rw [Multipart.readParam]
  split
  · rename_i key value split
    have inside : trimMatches '"' (Text.trim value) <:+: param :=
      (trimMatches_within _ _).trans ((Text.trim_infix _).trans (Text.infix_of_splitOnce split))
    have good : ';' ∉ trimMatches '"' (Text.trim value) ∧
        ¬boundary.dashes <:+: trimMatches '"' (Text.trim value) :=
      ⟨fun member => single (inside.subset member), fun here => absent (here.trans inside)⟩
    obtain ⟨name, filename⟩ := List.forall_mem_append.mp clean.names
    dsimp only
    split_ifs
    · refine ⟨List.forall_mem_append.mpr ⟨?_, filename⟩, clean.contentType⟩
      exact List.forall_mem_singleton.mpr good
    · refine ⟨List.forall_mem_append.mpr ⟨name, ?_⟩, clean.contentType⟩
      exact List.forall_mem_singleton.mpr good
    · exact clean
  · exact clean

theorem Clean.foldl_readParam {params : List (List Char)} (clean : Clean boundary fields)
    (single : ∀ param ∈ params, ';' ∉ param)
    (absent : ∀ param ∈ params, ¬boundary.dashes <:+: param) :
    Clean boundary (params.foldl Multipart.readParam fields) := by
  induction params generalizing fields with
  | nil => exact clean
  | cons param params ih =>
      rw [List.forall_mem_cons] at single absent
      exact ih (clean.readParam single.1 absent.1) single.2 absent.2

theorem Clean.readLine (clean : Clean boundary fields) {line : List Char}
    (absent : ¬boundary.dashes <:+: line) : Clean boundary (readLine fields line) := by
  rw [Multipart.readLine]
  split
  · rename_i key value split
    have inside := Text.infix_of_splitOnce split
    split_ifs
    · refine ⟨clean.names, fun text typed => ?_⟩
      obtain rfl := Option.some.inj typed
      refine ⟨Text.trim_trim value, fun here => absent (here.trans ?_)⟩
      exact (Text.trim_infix _).trans inside
    · refine clean.foldl_readParam (fun param member => ?_) fun param member here => ?_
      · exact Text.not_mem_of_mem_splitOn (List.mem_of_mem_drop member)
      · exact absent (here.trans
          ((Text.infix_of_mem_splitOn (List.mem_of_mem_drop member)).trans inside))
    · exact clean
  · exact clean

theorem Clean.foldl_readLine {lines : List (List Char)} (clean : Clean boundary fields)
    (absent : ∀ line ∈ lines, ¬boundary.dashes <:+: line) :
    Clean boundary (lines.foldl Multipart.readLine fields) := by
  induction lines generalizing fields with
  | nil => exact clean
  | cons line lines ih =>
      rw [List.forall_mem_cons] at absent
      exact ih (clean.readLine absent.1) absent.2

theorem exists_of_mem_readParts {chunks : List (List UInt8)}
    (member : part ∈ readParts keepFiles chunks) :
    ∃ chunk ∈ chunks, readPart keepFiles chunk = some part := by
  induction chunks with
  | nil => cases member
  | cons chunk chunks ih =>
      rw [readParts] at member
      split_ifs at member
      · cases member
      · rcases List.mem_append.mp member with here | later
        · exact ⟨chunk, List.mem_cons_self, Option.mem_toList.mp here⟩
        · obtain ⟨other, listed, read⟩ := ih later
          exact ⟨other, List.mem_cons_of_mem _ listed, read⟩

/-- Whatever is read between delimiters has clean fields. -/
theorem clean_of_mem_readBehind {bytes : List UInt8}
    (member : part ∈ readBehind boundary keepFiles bytes) :
    ∃ fields content, part = partOf keepFiles fields content ∧ Clean boundary fields := by
  obtain ⟨chunk, listed, read⟩ := exists_of_mem_readParts member
  have apart := Search.absent_of_mem_pieces boundary.solid listed
  obtain ⟨inner, place, rfl, -, rfl⟩ := readPart_eq_some read
  refine ⟨_, _, rfl, clean_nothing.foldl_readLine fun line inside here => apart ?_⟩
  have shown := here.trans (Text.infix_of_mem_lines inside)
  refine (Utf8.infix_of_fromUtf8Lossy boundary.ascii shown).trans ?_
  refine (List.take_prefix _ _).isInfix.trans ?_
  exact (stripEnd_front _ _).isInfix.trans (stripStart_suffix _ _).isInfix

end Fields

/-! ## Forms that are shown as they were sent -/

section Showing

variable {boundary : Boundary} {keepFiles : Bool}

theorem map_ofList_inj {text other : Option (List Char)}
    (same : text.map String.ofList = other.map String.ofList) : text = other :=
  Option.map_injective (fun _ _ => String.ofList_inj.mp) same

theorem fields_of_shown {sent : Sent} {content : List UInt8}
    (shown : Shown keepFiles sent (partOf keepFiles fields content)) : sent.fields = fields := by
  have name : fields.name = sent.name := map_ofList_inj shown.name
  have filename : fields.filename = sent.filename := map_ofList_inj shown.filename
  have contentType : fields.contentType = sent.contentType := map_ofList_inj shown.contentType
  rw [Sent.fields, ← name, ← filename, ← contentType]

/-- Parts that are shown have the fields and the size of what was read. -/
theorem spec_of_shown {parts : List Sent} {read : List Part}
    (shown : List.Forall₂ (Shown keepFiles) parts read)
    (reads : ∀ part ∈ read, ∃ fields content,
      part = partOf keepFiles fields content ∧ Clean boundary fields) :
    (∀ sent ∈ parts, Clean boundary sent.fields) ∧
      total read = (parts.map fun sent => sent.content.length).sum := by
  induction shown with
  | nil => exact ⟨fun _ member => absurd member List.not_mem_nil, rfl⟩
  | @cons sent part parts read first _ ih =>
      obtain ⟨here, later⟩ := List.forall_mem_cons.mp reads
      obtain ⟨others, sizes⟩ := ih later
      obtain ⟨fields, content, rfl, clean⟩ := here
      refine ⟨List.forall_mem_cons.mpr ⟨fields_of_shown first ▸ clean, others⟩, ?_⟩
      have size := first.size
      rw [total] at sizes ⊢
      rw [List.map_cons, List.sum_cons, sizes, size, List.map_cons, List.sum_cons]

theorem Clean.fielded {sent : Sent} (clean : Clean boundary sent.fields) :
    Fielded boundary sent := by
  obtain ⟨name, filename⟩ := List.forall_mem_append.mp clean.names
  refine List.forall_mem_append.mpr ⟨fun text named => (name text named).2, ?_⟩
  refine List.forall_mem_append.mpr ⟨fun text named => (filename text named).2, ?_⟩
  intro text typed
  exact (clean.contentType text (Option.mem_toList.mp typed)).2

/-- What is read behind the first delimiter shows the parts exactly if they are plain. -/
theorem readBehind_shown_iff (parts : List Sent) :
    List.Forall₂ (Shown keepFiles) parts
        (readBehind boundary keepFiles (behind boundary parts)) ↔
      ∀ sent ∈ parts, Plain boundary sent := by
  constructor
  · intro shown sent member
    obtain ⟨clean, sizes⟩ := spec_of_shown shown fun _ => clean_of_mem_readBehind
    have whole := (total_le fun sent member => (clean sent member).fielded).2 sizes
    exact
      { joined := fun text named => ((clean sent member).names text named).1
        trimmed := fun text typed => ((clean sent member).contentType text typed).1
        fields := (clean sent member).fielded
        content := whole sent member }
  · intro plain
    rw [parse_of_plain plain, List.forall₂_map_right_iff]
    exact List.forall₂_same.mpr fun sent _ => shown_partOf sent

/-- A form in the standard way is shown part by part as it was sent exactly if the delimiter stands
in none of its fields and contents, no name holds a semicolon and no type is padded. Further lines
of the headers make no difference. -/
theorem shown_iff {quoted : Bool} (spaceless : quoted = false → ' ' ∉ boundary.chars)
    (parts : List Sent) :
    (∃ found, multipartBoundary (boundary.header quoted) = some found ∧
        List.Forall₂ (Shown keepFiles) parts
          (parseMultipart (encode boundary parts) found keepFiles)) ↔
      ∀ sent ∈ parts, Plain boundary sent := by
  rw [multipartBoundary_header spaceless, ← @readBehind_shown_iff boundary keepFiles,
    ← parseMultipart_delimiter, ← encode_eq]
  simp

/-- A boundary of one letter. -/
def letter : Boundary := ⟨['B'], by decide⟩

/-- A field without a name, and a line that says how its content is encoded. -/
def remark : Sent :=
  ⟨none, none, none, ["Content-Transfer-Encoding: 8bit".toList], [104, 105], by decide⟩

/-- A file of two bytes. -/
def note : Sent :=
  ⟨some "note".toList, some "a.txt".toList, some "text/plain".toList, [], [104, 105], by decide⟩

theorem note_shown : ∃ found, multipartBoundary (letter.header false) = some found ∧
    List.Forall₂ (Shown true) [remark, note]
      (parseMultipart (encode letter [remark, note]) found true) := by
  refine (shown_iff (fun _ => by decide) [remark, note]).mpr ?_
  refine List.forall_mem_cons.mpr ⟨⟨?_, ?_, ?_, ?_⟩, List.forall_mem_singleton.mpr ⟨?_, ?_, ?_, ?_⟩⟩
  all_goals decide

/-- A field whose content has the delimiter in the middle of a line. -/
def crossed : Sent := ⟨some "note".toList, none, none, [], [120, 45, 45, 66], by decide⟩

/-- It is cut there, though no line begins with the delimiter. -/
theorem crossed_cut : ¬∀ (boundary : Boundary) (quoted keepFiles : Bool) (parts : List Sent),
    (quoted = false → ' ' ∉ boundary.chars) →
    (∀ sent ∈ parts, ¬crlf ++ boundary.delimiter <:+: sent.content) →
    ∃ found, multipartBoundary (boundary.header quoted) = some found ∧
      List.Forall₂ (Shown keepFiles) parts
        (parseMultipart (encode boundary parts) found keepFiles) := by
  intro claim
  have apart : ∀ sent ∈ [crossed], ¬crlf ++ letter.delimiter <:+: sent.content :=
    List.forall_mem_singleton.mpr (by decide)
  obtain ⟨found, named, shown⟩ := claim letter true true [crossed] nofun apart
  have name : multipartBoundary (letter.header true) = some "B" := by decide +kernel
  obtain rfl : "B" = found := Option.some.inj (name.symm.trans named)
  have sizes : (parseMultipart (encode letter [crossed]) "B" true).map Part.size = [1] := by
    decide
  obtain ⟨part, rest, first, -, whole⟩ := List.forall₂_cons_left_iff.mp shown
  rw [whole, List.map_cons, first.size] at sizes
  exact absurd (List.cons.inj sizes).1 (by decide)

end Showing
end Multipart
end Fghj
