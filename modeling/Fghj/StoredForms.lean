import Fghj.Forms

/-!
# Forms that are cut off

What is stored of a body ends at a limit, in the middle of a part if need be. Of two forms that
differ in the contents of files only, the same parts are read without the files unless the delimiter
stands in a file of one of them, or what is stored of one ends in a line break and of the other not.
-/

namespace Fghj
namespace Multipart

open Traffic (Part essence)

/-! ## Files -/

/-- Two parts with the same header, and the same content unless they are files. -/
structure Alike (sent other : Sent) : Prop where
  name : other.name = sent.name
  filename : other.filename = sent.filename
  contentType : other.contentType = sent.contentType
  more : other.more = sent.more
  size : other.content.length = sent.content.length
  content : sent.fields.isFile = false → other.content = sent.content

namespace Alike

variable {sent other : Sent}

theorem lines (alike : Alike sent other) : other.lines = sent.lines := by
  obtain ⟨name, filename, contentType, more, -, -⟩ := alike
  unfold Sent.lines Sent.disposition Sent.params Sent.others
  simp only [name, filename, contentType, more]

theorem front (alike : Alike sent other) : other.front = sent.front := by
  obtain ⟨first, others⟩ := List.cons.inj alike.lines
  simp only [Sent.front, Sent.head, first, others]

theorem fielded {boundary : Boundary} (alike : Alike sent other)
    (fielded : Fielded boundary sent) : Fielded boundary other := by
  simpa only [Fielded, alike.name, alike.filename, alike.contentType] using fielded

theorem chunk_length (alike : Alike sent other) : other.chunk.length = sent.chunk.length := by
  simp only [Sent.chunk_eq, List.length_append, alike.front, alike.size]

end Alike

theorem readParam_filename {fields : Fields} (named : fields.filename.isSome)
    (param : List Char) : (readParam fields param).filename.isSome := by
  rw [readParam]
  split
  · dsimp only
    split_ifs
    · exact named
    · rfl
    · exact named
  · exact named

theorem foldl_readParam_filename {params : List (List Char)} {fields : Fields}
    (named : fields.filename.isSome ∨ ∃ rest, " filename".toList ++ '=' :: rest ∈ params) :
    (params.foldl readParam fields).filename.isSome := by
  induction params generalizing fields with
  | nil => simpa using named
  | cons param params ih =>
      refine ih ?_
      rcases named with named | ⟨rest, listed⟩
      · exact .inl (readParam_filename named param)
      · rcases List.mem_cons.mp listed with rfl | later
        · left
          have other : Text.trim " filename".toList ≠ "name".toList := by decide
          have key : Text.trim " filename".toList = "filename".toList := by decide
          simp only [readParam, Text.splitOnce_append (by decide : '=' ∉ " filename".toList),
            if_neg other, if_pos key, Option.isSome_some]
        · exact .inr ⟨rest, later⟩

variable {sent : Sent}

/-- A filename is found whatever the names hold. -/
theorem readLine_filename {filename : List Char} (named : sent.filename = some filename) :
    (readLine {} sent.disposition).filename.isSome := by
  have whole : " form-data".toList ++ sent.params.flatMap (';' :: ·) = (" form-data".toList ++
      (sent.name.toList.map (param " name".toList)).flatMap (';' :: ·)) ++
        ';' :: param " filename".toList filename := by
    simp [Sent.params, named]
  obtain ⟨part, parts, split⟩ := List.exists_cons_of_ne_nil (List.splitOn_ne_nil ';'
    (" form-data".toList ++ (sent.name.toList.map (param " name".toList)).flatMap (';' :: ·)))
  obtain ⟨rest, others, last⟩ := @Text.splitOn_front ';' (" filename".toList ++ ['=']) (by decide)
    ('"' :: filename ++ ['"'])
  have here : param " filename".toList filename =
      (" filename".toList ++ ['=']) ++ ('"' :: filename ++ ['"']) := by
    simp [param]
  rw [sent.readLine_disposition, whole, List.splitOn_append_cons_self, split, here, last]
  exact foldl_readParam_filename (.inr ⟨rest, by simp⟩)

theorem essence_trim (contentType : List Char) :
    essence (String.ofList (Text.trim contentType)) = essence (String.ofList contentType) := by
  have solid : ∀ char, Text.isWhitespace char → decide (char ≠ ';') = true := by
    intro char space
    rw [decide_eq_true_eq]
    rintro rfl
    exact absurd space (by decide)
  have same : Text.trim ((Text.trim contentType).takeWhile (· ≠ ';')) =
      Text.trim (contentType.takeWhile (· ≠ ';')) := by
    obtain ⟨before, after, before_blank, after_blank, whole⟩ := Text.exists_trim contentType
    generalize Text.trim contentType = text at whole
    subst whole
    rw [List.append_assoc, List.takeWhile_append_of_pos fun char member =>
      solid char (before_blank char member), Text.trim_spaces_append before_blank]
    rw [List.takeWhile_append]
    split
    · rename_i all
      have whole : text.takeWhile (· ≠ ';') = text := (List.takeWhile_prefix _).eq_of_length all
      have rest : after.takeWhile (· ≠ ';') = after := by
        have taken := @List.takeWhile_append_of_pos _ _ _ [] fun char member =>
          solid char (after_blank char member)
        simpa using taken
      rw [whole, rest, Text.trim_append_spaces after_blank]
    · rfl
  simp only [essence, String.toList_ofList, same]

theorem isFile_read (file : sent.fields.isFile) : (sent.lines.foldl readLine {}).isFile := by
  have named_read (fields : Fields) : (sent.contentType.toList.map
      ("Content-Type: ".toList ++ ·)).foldl readLine fields =
        { fields with contentType := (sent.contentType.map Text.trim).or fields.contentType } := by
    cases sent.contentType with
    | none => rfl
    | some contentType =>
        change readLine fields ("Content-Type: ".toList ++ contentType) = _
        rw [readLine_contentType]
        rfl
  have read : sent.lines.foldl readLine {} =
      { readLine {} sent.disposition with
        contentType := (sent.contentType.map Text.trim).or
          (readLine {} sent.disposition).contentType } := by
    rw [Sent.lines, List.foldl_cons, Sent.others, List.foldl_append, named_read,
      foldl_readLine_further sent.further]
  rw [read]
  simp only [Fields.isFile, Sent.fields, Bool.or_eq_true] at file ⊢
  rcases file with named | typed
  · left
    obtain ⟨filename, given⟩ := Option.isSome_iff_exists.mp named
    exact readLine_filename given
  · right
    obtain ⟨contentType, given, binary⟩ := (Option.any_eq_true _ _).mp typed
    rw [given, Option.map_some, Option.some_or, Option.any_some, essence_trim]
    exact binary

/-- Contents of one size make no difference to how a file is read without files. -/
theorem partOf_file {fields : Fields} (file : fields.isFile) {content other : List UInt8}
    (sizes : content.length = other.length) :
    partOf false fields content = partOf false fields other := by
  simp [partOf, file, sizes]

/-! ## A part that is cut off -/

section Stored

variable {boundary : Boundary} {keepFiles : Bool}

/-- Whether a text ends in a line break is decided by what stands behind a byte that is no part of
one. -/
theorem crlf_suffix_append {byte : UInt8} (front : List UInt8) {rest : List UInt8}
    (apart : byte ≠ 13) (ended : rest = [] → byte ≠ 10) :
    crlf <:+ front ++ [byte] ++ rest ↔ crlf <:+ rest := by
  have turned : crlf.reverse <+: rest.reverse ++ byte :: front.reverse ↔
      crlf.reverse <+: rest.reverse := by
    change [10, 13] <+: _ ↔ [10, 13] <+: _
    cases last : rest.reverse with
    | nil =>
        have none := ended (List.reverse_eq_nil_iff.mp last)
        simp [List.cons_prefix_cons, Ne.symm none]
    | cons first others =>
        cases others with
        | nil => simp [List.cons_prefix_cons, Ne.symm apart]
        | cons second others => simp [List.cons_prefix_cons]
  rw [← List.reverse_prefix, List.reverse_append, List.reverse_append, List.reverse_singleton,
    List.singleton_append, turned, List.reverse_prefix]

/-- Of a part that is cut off behind its header, the rest is its content. -/
theorem readPart_cut (sent : Sent) {rest : List UInt8} (some : rest ≠ []) :
    readPart keepFiles (sent.front ++ rest) =
      Option.some (partOf keepFiles (sent.lines.foldl readLine {}) (stripEnd crlf rest)) := by
  have ends : sent.front ++ rest =
      crlf ++ (Utf8.encode sent.head ++ [13, 10, 13] ++ [10] ++ rest) := by
    rw [sent.front_eq]
    simp [crlf]
  have kept : stripEnd crlf (Utf8.encode sent.head ++ [13, 10, 13] ++ [10] ++ rest) =
      Utf8.encode sent.head ++ (crlf ++ crlf) ++ stripEnd crlf rest := by
    by_cases broken : crlf <:+ rest
    · obtain ⟨inner, rfl⟩ := broken
      rw [← List.append_assoc, stripEnd_append, stripEnd_append]
      simp [crlf]
    · have same := @crlf_suffix_append 10 (Utf8.encode sent.head ++ [13, 10, 13]) rest
        (by decide) fun none => absurd none some
      rw [stripEnd, stripEnd, if_neg (fun whole => broken (same.mp whole)), if_neg broken]
      simp [crlf]
  have stripped : stripEnd crlf (stripStart crlf (sent.front ++ rest)) =
      Utf8.encode sent.head ++ (crlf ++ crlf) ++ stripEnd crlf rest := by
    rw [ends, stripStart_append, kept]
  exact sent.readPart_stripped keepFiles stripped

/-- What follows the header of a part, up to the next delimiter. -/
def tail (boundary : Boundary) (sent : Sent) : List UInt8 :=
  sent.content ++ crlf ++ boundary.delimiter

theorem chunk_delimiter (sent : Sent) :
    sent.chunk ++ boundary.delimiter = sent.front ++ tail boundary sent := by
  rw [sent.chunk_eq, tail]
  simp only [List.append_assoc]

variable {parts : List Sent} {room : Nat}

/-- What is stored of a form with a part that is stored whole. -/
theorem take_whole (whole : (sent.chunk ++ boundary.delimiter).length ≤ room) :
    (behind boundary (sent :: parts)).take room = sent.chunk ++ boundary.delimiter ++
      (behind boundary parts).take (room - (sent.chunk ++ boundary.delimiter).length) := by
  rw [behind, List.take_append, List.take_of_length_le whole]

/-- What is stored of a form that ends within a header. -/
theorem take_front (short : room ≤ sent.front.length) :
    (behind boundary (sent :: parts)).take room = sent.front.take room := by
  rw [behind, chunk_delimiter, List.append_assoc, List.take_append_of_le_length short]

/-- What is stored of a form that ends behind a header. -/
theorem take_tail (long : sent.front.length ≤ room)
    (cut : room ≤ (sent.chunk ++ boundary.delimiter).length) :
    (behind boundary (sent :: parts)).take room =
      sent.front ++ (tail boundary sent).take (room - sent.front.length) := by
  rw [behind, List.take_append_of_le_length cut, chunk_delimiter, List.take_append,
    List.take_of_length_le long]

/-- The delimiter stands in no field of the parts and in nothing that is stored of their
contents. -/
def Quiet (boundary : Boundary) : Nat → List Sent → Prop
  | _, [] => True
  | room, sent :: parts =>
      Fielded boundary sent ∧
        ¬boundary.delimiter <:+: sent.content.take (room - sent.front.length) ∧
        Quiet boundary (room - (sent.chunk ++ boundary.delimiter).length) parts

theorem not_infix_tail (absent : ¬boundary.delimiter <:+: sent.content.take room)
    (cut : room < (tail boundary sent).length) :
    ¬boundary.delimiter <:+: (tail boundary sent).take room := by
  intro inside
  by_cases within : room ≤ sent.content.length
  · rw [tail, List.append_assoc, List.take_append_of_le_length within] at inside
    exact absent inside
  · rw [List.take_of_length_le (by omega)] at absent
    have first := (block_crlf absent block_delimiter).2
    rw [List.append_nil] at first
    rw [← tail, List.dropLast_eq_take] at first
    exact first (inside.trans (List.take_prefix_take_left (by omega)).isInfix)

theorem content_of_whole (whole : (sent.chunk ++ boundary.delimiter).length ≤ room) :
    sent.content.take (room - sent.front.length) = sent.content := by
  refine List.take_of_length_le ?_
  rw [chunk_delimiter, tail] at whole
  simp only [List.length_append] at whole
  omega

/-- Of a form that ends behind a header, one part is read. -/
theorem readBehind_cut (fielded : Fielded boundary sent) {rest : List UInt8} (some : rest ≠ [])
    (absent : ¬boundary.delimiter <:+: rest) :
    readBehind boundary keepFiles (sent.front ++ rest) =
      [partOf keepFiles (sent.lines.foldl readLine {}) (stripEnd crlf rest)] := by
  rw [readBehind, Search.pieces_of_absent boundary.solid (not_infix_front fielded absent),
    readParts, if_neg (not_closing_front sent rest), readPart_cut sent some]
  rfl

theorem crlf_suffix_front (sent : Sent) {rest : List UInt8} (some : rest ≠ []) :
    crlf <:+ sent.front ++ rest ↔ crlf <:+ rest := by
  have front : sent.front = crlf ++ Utf8.encode sent.head ++ crlf ++ [13] ++ [10] := by
    rw [sent.front_eq]
    simp [crlf]
  rw [front]
  exact crlf_suffix_append _ (by decide) fun none => absurd none some

theorem crlf_suffix_delimiter (front rest : List UInt8) :
    crlf <:+ front ++ boundary.delimiter ++ rest ↔ crlf <:+ rest := by
  obtain ⟨byte, last⟩ := List.getLast?_isSome.mpr boundary.solid |> Option.isSome_iff_exists.mp
  obtain ⟨before, whole⟩ := List.getLast?_eq_some_iff.mp last
  have member : byte ∈ boundary.delimiter := List.mem_of_getLast? last
  have apart {other : UInt8} (absent : other ∉ boundary.delimiter) : byte ≠ other :=
    fun same => absent (same ▸ member)
  rw [whole, ← List.append_assoc]
  exact crlf_suffix_append _ (apart boundary.return_not_mem) fun _ =>
    apart boundary.newline_not_mem

/-- Of a part that is cut off behind its header, what is stored of its content is read, but for a
line break at the end. -/
theorem read_tail (fielded : Fielded boundary sent)
    (content : ¬boundary.delimiter <:+: sent.content.take (room - sent.front.length))
    (long : sent.front.length < room) (cut : room < (sent.chunk ++ boundary.delimiter).length)
    (parts : List Sent) :
    readBehind boundary keepFiles ((behind boundary (sent :: parts)).take room) =
        [partOf keepFiles (sent.lines.foldl readLine {})
          (stripEnd crlf ((tail boundary sent).take (room - sent.front.length)))] ∧
      (crlf <:+ (behind boundary (sent :: parts)).take room ↔
        crlf <:+ (tail boundary sent).take (room - sent.front.length)) := by
  have short : room - sent.front.length < (tail boundary sent).length := by
    rw [chunk_delimiter, List.length_append] at cut
    omega
  have some : (tail boundary sent).take (room - sent.front.length) ≠ [] := by
    intro nothing
    have none := congrArg List.length nothing
    rw [List.length_take, List.length_nil] at none
    omega
  rw [take_tail (Nat.le_of_lt long) (Nat.le_of_lt cut)]
  exact ⟨readBehind_cut fielded some (not_infix_tail content short), crlf_suffix_front sent some⟩

theorem length_stripEnd (text : List UInt8) :
    (stripEnd crlf text).length = if crlf <:+ text then text.length - 2 else text.length := by
  rw [stripEnd]
  split_ifs
  · rw [List.length_take]
    exact Nat.min_eq_left (Nat.sub_le _ _)
  · rfl

theorem Alike.read_chunk {sent other : Sent} (alike : Alike sent other) :
    partOf false (other.lines.foldl readLine {}) other.content =
      partOf false (sent.lines.foldl readLine {}) sent.content := by
  rw [alike.lines]
  by_cases file : sent.fields.isFile = true
  · exact partOf_file (isFile_read file) alike.size
  · rw [alike.content (by simpa using file)]

/-- What is read of two parts that are cut off in the same place differs only in its size. -/
theorem Alike.read_cut {sent other : Sent} (alike : Alike sent other) (room : Nat) :
    partOf false (sent.lines.foldl readLine {})
          (stripEnd crlf ((tail boundary sent).take room)) =
        partOf false (other.lines.foldl readLine {})
          (stripEnd crlf ((tail boundary other).take room)) ↔
      (crlf <:+ (tail boundary sent).take room ↔ crlf <:+ (tail boundary other).take room) := by
  have sizes : ((tail boundary other).take room).length =
      ((tail boundary sent).take room).length := by
    simp only [tail, List.length_take, List.length_append, alike.size]
  rw [alike.lines]
  by_cases file : sent.fields.isFile = true
  · constructor
    · intro same
      have lengths : (stripEnd crlf ((tail boundary sent).take room)).length =
          (stripEnd crlf ((tail boundary other).take room)).length := congrArg Part.size same
      rw [length_stripEnd, length_stripEnd, sizes] at lengths
      split_ifs at lengths with first second
      · exact iff_of_true first second
      · have long := first.length_le
        change 2 ≤ _ at long
        omega
      · rename_i second
        have long := second.length_le
        change 2 ≤ _ at long
        omega
      · rename_i second
        exact iff_of_false first second
    · intro both
      refine partOf_file (isFile_read file) ?_
      rw [length_stripEnd, length_stripEnd, sizes]
      simp only [both]
  · have same : tail boundary other = tail boundary sent := by
      rw [tail, tail, alike.content (by simpa using file)]
    rw [same]
    simp

variable {parts others : List Sent}

/-- Two forms with nothing of the delimiter in their parts are read alike exactly if what is stored
of them ends in a line break in both or in neither. -/
theorem read_eq_iff (alike : List.Forall₂ Alike parts others) (quiet : Quiet boundary room parts)
    (other_quiet : Quiet boundary room others) :
    readBehind boundary false ((behind boundary parts).take room) =
        readBehind boundary false ((behind boundary others).take room) ↔
      (crlf <:+ (behind boundary parts).take room ↔
        crlf <:+ (behind boundary others).take room) := by
  induction alike generalizing room with
  | nil => simp
  | @cons sent other parts others first alike ih =>
      obtain ⟨fielded, content, later⟩ := quiet
      obtain ⟨other_fielded, other_content, other_later⟩ := other_quiet
      have sizes : (other.chunk ++ boundary.delimiter).length =
          (sent.chunk ++ boundary.delimiter).length := by
        rw [List.length_append, List.length_append, first.chunk_length]
      by_cases whole : (sent.chunk ++ boundary.delimiter).length ≤ room
      · have other_whole := sizes.trans_le whole
        rw [content_of_whole whole] at content
        rw [content_of_whole other_whole] at other_content
        rw [sizes] at other_later
        rw [take_whole whole, take_whole other_whole, readBehind_sent fielded content,
          readBehind_sent other_fielded other_content, crlf_suffix_delimiter,
          crlf_suffix_delimiter, first.read_chunk, sizes, List.cons.injEq, ← ih later other_later]
        simp
      · by_cases short : room ≤ sent.front.length
        · rw [take_front short, take_front (first.front ▸ short), first.front]
          simp
        · obtain ⟨read, ends⟩ := @read_tail _ _ false _ fielded content (by omega) (by omega) parts
          obtain ⟨other_read, other_ends⟩ := @read_tail _ _ false _ other_fielded other_content
            (by rw [first.front]; omega) (by omega) others
          rw [read, other_read, ends, other_ends, first.front, List.cons.injEq, first.read_cut]
          simp

/-! ## Sizes of what is stored -/

/-- How much is stored of the contents, with what follows the last of them. -/
def storedSize (boundary : Boundary) : Nat → List Sent → Nat
  | _, [] => 0
  | room, sent :: parts =>
      if (sent.chunk ++ boundary.delimiter).length ≤ room then
        sent.content.length +
          storedSize boundary (room - (sent.chunk ++ boundary.delimiter).length) parts
      else room - sent.front.length

theorem storedSize_eq (alike : List.Forall₂ Alike parts others) (room : Nat) :
    storedSize boundary room others = storedSize boundary room parts := by
  induction alike generalizing room with
  | nil => rfl
  | cons first _ ih =>
      simp only [storedSize, List.length_append, first.chunk_length, first.size, first.front, ih]

/-- Where the delimiter stands in no part, all that is stored is read, but for a line break at the
end. -/
theorem storedSize_le (quiet : Quiet boundary room parts) :
    storedSize boundary room parts ≤
      total (readBehind boundary keepFiles ((behind boundary parts).take room)) + 2 := by
  induction parts generalizing room with
  | nil => exact Nat.zero_le _
  | cons sent parts ih =>
      obtain ⟨fielded, content, later⟩ := quiet
      rw [storedSize]
      split_ifs with whole
      · rw [content_of_whole whole] at content
        rw [take_whole whole, readBehind_sent fielded content]
        have rest := ih later
        rw [total_cons, size_partOf]
        omega
      · by_cases short : room ≤ sent.front.length
        · omega
        · obtain ⟨read, -⟩ := @read_tail _ _ keepFiles _ fielded content (by omega) (by omega) parts
          have long : room - sent.front.length ≤ (tail boundary sent).length := by
            rw [chunk_delimiter, List.length_append] at whole
            omega
          rw [read, total_cons, size_partOf, total_nil, length_stripEnd, List.length_take,
            Nat.min_eq_left long]
          split_ifs <;> omega

/-- One chunk alone is read as one part at most. -/
theorem total_readBehind_absent {chunk : List UInt8} (absent : ¬boundary.delimiter <:+: chunk) :
    total (readBehind boundary keepFiles chunk) ≤ total (readPart keepFiles chunk).toList := by
  rw [readBehind, Search.pieces_of_absent boundary.solid absent, readParts]
  split_ifs
  · exact Nat.zero_le _
  · exact Nat.le_of_eq (by rw [total_append, readParts, total_nil, Nat.add_zero])

theorem total_readBehind_le_length (bytes : List UInt8) :
    total (readBehind boundary keepFiles bytes) ≤ bytes.length := by
  induction sized : bytes.length using Nat.strong_induction_on generalizing bytes with
  | _ size ih =>
      subst sized
      by_cases inside : boundary.delimiter <:+: bytes
      · obtain ⟨front, back, rfl, ends⟩ := Search.exists_block boundary.solid inside
        have shorter : back.length < (front ++ boundary.delimiter ++ back).length := by
          have long := List.length_pos_of_ne_nil boundary.solid
          simp only [List.length_append]
          omega
        have first := @total_readBehind_block _ keepFiles _ ends back
        have here := @total_readPart_le keepFiles front
        have later := ih back.length shorter back rfl
        simp only [List.length_append]
        omega
      · have first := @total_readBehind_absent _ keepFiles _ inside
        have here := @total_readPart_le keepFiles bytes
        omega

theorem quiet_zero (fielded : ∀ sent ∈ parts, Fielded boundary sent) : Quiet boundary 0 parts := by
  induction parts with
  | nil => trivial
  | cons sent parts ih =>
      obtain ⟨first, others⟩ := List.forall_mem_cons.mp fielded
      refine ⟨first, ?_, by simpa using ih others⟩
      rw [Nat.zero_sub, List.take_zero, List.infix_nil]
      exact boundary.solid

theorem total_take_front (fielded : Fielded boundary sent) (room : Nat) :
    total (readBehind boundary keepFiles (sent.front.take room)) = 0 := by
  have starts : sent.front.take room <+: sent.front ++ [] := by
    rw [List.append_nil]
    exact List.take_prefix _ _
  have nothing : ¬boundary.delimiter <:+: [] := by simp [boundary.solid]
  have absent : ¬boundary.delimiter <:+: sent.front.take room := fun inside =>
    not_infix_front fielded nothing (inside.trans starts.isInfix)
  have at_most := @total_readBehind_absent _ keepFiles _ absent
  have part := @total_readPart_front_le keepFiles _ _ _ starts
  have short := starts.length_le
  rw [List.append_nil] at short
  omega

/-- Behind a header, no more is read than what is stored, and less if the delimiter stands there. -/
theorem total_front_append (fielded : Fielded boundary sent) (rest : List UInt8) :
    total (readBehind boundary keepFiles (sent.front ++ rest)) ≤ rest.length ∧
      (boundary.delimiter <:+: rest →
        total (readBehind boundary keepFiles (sent.front ++ rest)) + 3 ≤ rest.length) := by
  by_cases inside : boundary.delimiter <:+: rest
  · obtain ⟨front, back, rfl, ends⟩ := Search.exists_block boundary.solid inside
    have first := @total_readBehind_block _ keepFiles _ (block_front fielded ends) back
    have here := @total_readPart_front_le keepFiles sent (sent.front ++ front) _ List.prefix_rfl
    have later := @total_readBehind_le_length boundary keepFiles back
    have long := @three_le_delimiter boundary
    have whole : sent.front ++ (front ++ boundary.delimiter ++ back) =
        sent.front ++ front ++ boundary.delimiter ++ back := by
      simp only [List.append_assoc]
    rw [whole]
    simp only [List.length_append] at here ⊢
    exact ⟨by omega, fun _ => by omega⟩
  · have first := @total_readBehind_absent _ keepFiles _ (not_infix_front fielded inside)
    have here := @total_readPart_front_le keepFiles sent (sent.front ++ rest) _ List.prefix_rfl
    rw [List.length_append] at here
    exact ⟨by omega, fun absurd_inside => absurd absurd_inside inside⟩

/-- No more is read than what is stored, and less if the delimiter stands in a part. -/
theorem total_le_stored (fielded : ∀ sent ∈ parts, Fielded boundary sent) :
    total (readBehind boundary keepFiles ((behind boundary parts).take room)) ≤
        storedSize boundary room parts ∧
      (¬Quiet boundary room parts →
        total (readBehind boundary keepFiles ((behind boundary parts).take room)) + 3 ≤
          storedSize boundary room parts) := by
  induction parts generalizing room with
  | nil =>
      refine ⟨?_, fun loud => absurd trivial loud⟩
      have starts : (behind boundary []).take room <+: [45, 45] ++ crlf := List.take_prefix _ _
      have absent : ¬boundary.delimiter <:+: (behind boundary []).take room := fun inside =>
        not_infix_closing (inside.trans starts.isInfix)
      have at_most := @total_readBehind_absent _ keepFiles _ absent
      have part := @total_readPart_le keepFiles ((behind boundary []).take room)
      have short : ((behind boundary []).take room).length ≤ 4 := starts.length_le
      rw [storedSize]
      omega
  | cons sent parts ih =>
      obtain ⟨first, others⟩ := List.forall_mem_cons.mp fielded
      rw [storedSize]
      split_ifs with whole
      · obtain ⟨at_most, less⟩ := @ih (room - (sent.chunk ++ boundary.delimiter).length) others
        rw [take_whole whole]
        by_cases inside : boundary.delimiter <:+: sent.content
        · have lost := @total_readBehind_lt _ keepFiles _ first inside
            ((behind boundary parts).take (room - (sent.chunk ++ boundary.delimiter).length))
          have long := @three_le_delimiter boundary
          exact ⟨by omega, fun _ => by omega⟩
        · rw [readBehind_sent first inside, total_cons, size_partOf]
          refine ⟨by omega, fun loud => ?_⟩
          have loud_later : ¬Quiet boundary
              (room - (sent.chunk ++ boundary.delimiter).length) parts := by
            intro later
            refine loud ⟨first, ?_, later⟩
            rwa [content_of_whole whole]
          have rest := less loud_later
          omega
      · have done : Quiet boundary (room - (sent.chunk ++ boundary.delimiter).length) parts := by
          rw [Nat.sub_eq_zero_of_le (by omega)]
          exact quiet_zero others
        by_cases short : room ≤ sent.front.length
        · rw [take_front short, total_take_front first]
          refine ⟨Nat.zero_le _, fun loud => absurd ⟨first, ?_, done⟩ loud⟩
          rw [Nat.sub_eq_zero_of_le short, List.take_zero, List.infix_nil]
          exact boundary.solid
        · rw [take_tail (by omega) (by omega)]
          obtain ⟨at_most, less⟩ := @total_front_append _ _ keepFiles first
            ((tail boundary sent).take (room - sent.front.length))
          rw [List.length_take] at at_most less
          refine ⟨by omega, fun loud => ?_⟩
          have inside : boundary.delimiter <:+: sent.content.take (room - sent.front.length) := by
            by_contra absent
            exact loud ⟨first, absent, done⟩
          have starts : sent.content.take (room - sent.front.length) <+:
              (tail boundary sent).take (room - sent.front.length) := by
            refine List.IsPrefix.take ?_ _
            rw [tail, List.append_assoc]
            exact List.prefix_append _ _
          have rest := less (inside.trans starts.isInfix)
          omega

theorem Quiet.fielded (quiet : Quiet boundary room parts) :
    ∀ sent ∈ parts, Fielded boundary sent := by
  induction parts generalizing room with
  | nil => exact fun _ member => absurd member List.not_mem_nil
  | cons sent parts ih => exact List.forall_mem_cons.mpr ⟨quiet.1, ih quiet.2.2⟩

theorem fielded_of_alike (alike : List.Forall₂ Alike parts others)
    (fielded : ∀ sent ∈ parts, Fielded boundary sent) : ∀ sent ∈ others, Fielded boundary sent := by
  induction alike with
  | nil => exact fielded
  | cons first _ ih =>
      obtain ⟨here, later⟩ := List.forall_mem_cons.mp fielded
      exact List.forall_mem_cons.mpr ⟨first.fielded here, ih later⟩

/-- What is read like a form with nothing of the delimiter in its parts has nothing of it either. -/
theorem quiet_of_read_eq (alike : List.Forall₂ Alike parts others) {room : Nat}
    (quiet : Quiet boundary room parts)

    (same : readBehind boundary keepFiles ((behind boundary parts).take room) =
      readBehind boundary keepFiles ((behind boundary others).take room)) :
    Quiet boundary room others := by
  by_contra loud
  have fielded := fielded_of_alike alike quiet.fielded
  have most := (@total_le_stored _ keepFiles room _ fielded).2 loud
  have least := @storedSize_le _ keepFiles _ _ quiet
  rw [storedSize_eq alike, ← same] at most
  omega

/-- Where something is stored of a content, a part is read. -/
theorem stored_eq_of_read_nil (alike : List.Forall₂ Alike parts others)
    (quiet : Quiet boundary room parts)
    (nothing : readBehind boundary keepFiles ((behind boundary parts).take room) = []) :
    (behind boundary parts).take room = (behind boundary others).take room := by
  cases alike with
  | nil => rfl
  | @cons sent other parts others first _ =>
      obtain ⟨fielded, content, -⟩ := quiet
      by_cases whole : (sent.chunk ++ boundary.delimiter).length ≤ room
      · rw [content_of_whole whole] at content
        rw [take_whole whole, readBehind_sent fielded content] at nothing
        cases nothing
      · by_cases short : room ≤ sent.front.length
        · rw [take_front short, take_front (first.front ▸ short), first.front]
        · have read := (@read_tail _ _ keepFiles _ fielded content (by omega) (by omega) parts).1
          rw [read] at nothing
          cases nothing

end Stored

end Multipart
end Fghj
