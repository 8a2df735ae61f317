import Fghj.Library.Search
import Fghj.Library.Text
import Fghj.Library.Utf8Pieces
import Mathlib.Data.List.Forall2

/-!
# Printing a log that is followed

The daemon serves the chunks of a log as server-sent events, with a line of the event for every line
of the chunk. The command line decodes every frame of the answer by itself, takes whole events off
the text, and prints their lines joined again. That is what the container wrote, unless a frame
ends inside a character of a chunk or a line of a chunk ends with a carriage return.
-/

namespace Fghj
namespace LogPrint

/-! ## The daemon -/

/-- What the daemon sends: a chunk of the log, an error, or a sign of life. -/
inductive Sent where
  | chunk (text : List Char)
  | error (text : List Char)
  | keepAlive

namespace Sent

/-- The lines of the data of an event. -/
def lines : Sent → List (List Char)
  | .chunk text => text.splitOn '\n'
  | .error text => text.splitOn '\n'
  | .keepAlive => []

/-- The lines of an event, with some lines of data. -/
def fields (lines : List (List Char)) : Sent → List (List Char)
  | .chunk _ => lines.map ("data: ".toList ++ ·)
  | .error _ => "event: error".toList :: lines.map ("data: ".toList ++ ·)
  | .keepAlive => [":".toList]

/-- An event with some lines of data: its lines and an empty one. -/
def block (lines : List (List Char)) (sent : Sent) : List Char :=
  Text.unlines (sent.fields lines) ++ ['\n']

/-- An event as it is sent. -/
def wire (sent : Sent) : List Char := sent.block sent.lines

/-- What is to be printed. -/
def text : Sent → List Char
  | .chunk text => text
  | _ => []

def isChunk : Sent → Bool
  | .chunk _ => true
  | _ => false

def isError : Sent → Bool
  | .error _ => true
  | _ => false

end Sent

/-! ## The command line -/

/-- A frame of the answer. -/
inductive Frame where
  | data (bytes : List UInt8)
  | trailers

/-- The data of a frame. -/
def Frame.intoData : Frame → Option (List UInt8)
  | .data bytes => some bytes
  | .trailers => none

inductive Event where
  | data (text : List Char)
  | error (text : List Char)
  /-- A keep-alive comment. -/
  | none
  deriving DecidableEq

/-- The data of a line, without a space before it. -/
def dataOf (line : List Char) : Option (List Char) :=
  (Text.stripPrefix "data:".toList line).map fun data => (Text.stripPrefix [' '] data).getD data

/-- The line says that the event is an error. -/
def saysError (line : List Char) : Bool :=
  (dataOf line).isNone &&
    (Text.stripPrefix "event:".toList line).map Text.trim == some "error".toList

/-- One block of the answer. -/
def parseEvent (block : List Char) : Event :=
  let lines := (Text.lines block).filterMap dataOf
  if lines.isEmpty then .none
  else
    let text := ['\n'].intercalate lines
    if (Text.lines block).any saysError then .error text else .data text

/-- The text not printed yet, and what has been printed. -/
structure Terminal where
  buffer : List Char := []
  out : List Char := []
  err : List (List Char) := []

namespace Terminal

def write (terminal : Terminal) : Event → Terminal
  | .data text => { terminal with out := terminal.out ++ text }
  | .error text => { terminal with err := terminal.err ++ ["fghjd: ".toList ++ text] }
  | .none => terminal

/-- Takes the whole blocks off the buffer, at most `fuel` of them. -/
def drain : Nat → Terminal → Terminal
  | 0, terminal => terminal
  | fuel + 1, terminal =>
      match Search.find "\n\n".toList terminal.buffer with
      | some stop =>
          drain fuel ({ terminal with buffer := terminal.buffer.drop (stop + 2) }.write
            (parseEvent (terminal.buffer.take (stop + 2))))
      | none => terminal

/-- A frame arrives. -/
def receive (terminal : Terminal) (frame : Frame) : Terminal :=
  match frame.intoData with
  | some data =>
      let buffer := terminal.buffer ++ Utf8.fromUtf8Lossy data
      drain buffer.length { terminal with buffer }
  | none => terminal

end Terminal

/-- `print`, once it follows the log. -/
def print (frames : List Frame) : Terminal := frames.foldl Terminal.receive {}

/-- The data of the frames. -/
def pieces (frames : List Frame) : List (List UInt8) := frames.filterMap Frame.intoData

/-- What is printed is what has been sent, and errors are told apart. -/
structure Printed (sent : List Sent) (frames : List Frame) : Prop where
  out : (print frames).out = sent.flatMap Sent.text
  err : (print frames).err.length = (sent.filter Sent.isError).length

/-- No frame ends inside a character of a chunk. -/
def ChunksWhole : List Sent → List (List UInt8) → Prop
  | [], _ => True
  | sent :: later, pieces =>
      let halves := Utf8.cutAt (Utf8.encode sent.wire).length pieces
      (sent.isChunk → Utf8.CutsWhole [] halves.1) ∧ ChunksWhole later halves.2

/-- No line of the text ends with a carriage return. -/
def Unreturned (text : List Char) : Prop := ∀ line ∈ text.splitOn '\n', line.getLast? ≠ some '\r'

/-! ## Blocks -/

variable {sent : Sent}

section Blocks

theorem solid : "\n\n".toList ≠ [] := by decide

/-- Lines none of which is empty make no empty line before their end. -/
theorem unlines_unbroken {lines : List (List Char)} (single : ∀ line ∈ lines, '\n' ∉ line)
    (some : [] ∉ lines) : ¬"\n\n".toList <:+: Text.unlines lines := by
  rintro ⟨front, back, whole⟩
  have split := Text.splitOn_unlines single
  have broken : (Text.unlines lines).splitOn '\n' =
      front.splitOn '\n' ++ [] :: back.splitOn '\n' := by
    have start : ('\n' :: back).splitOn '\n' = [] :: back.splitOn '\n' :=
      List.splitOn_append_cons_self [] back
    rw [← whole, List.append_assoc]
    exact (List.splitOn_append_cons_self front ('\n' :: back)).trans (by rw [start])
  have inside : [] ∈ ((Text.unlines lines).splitOn '\n').dropLast := by
    rw [broken, List.dropLast_append_of_ne_nil (List.cons_ne_nil _ _),
      List.dropLast_cons_of_ne_nil (List.splitOn_ne_nil _ _)]
    simp
  rw [split, List.dropLast_concat] at inside
  exact some inside

variable {lines : List (List Char)}

theorem fields_single (single : ∀ line ∈ lines, '\n' ∉ line) (sent : Sent) :
    ∀ field ∈ sent.fields lines, '\n' ∉ field := by
  have data : ∀ field ∈ lines.map ("data: ".toList ++ ·), '\n' ∉ field := by
    intro field member
    obtain ⟨line, inside, rfl⟩ := List.mem_map.mp member
    exact List.not_mem_append (by decide) (single line inside)
  cases sent with
  | chunk => exact data
  | error => exact List.forall_mem_cons.mpr ⟨by decide, data⟩
  | keepAlive => exact List.forall_mem_singleton.mpr (by decide)

theorem fields_some (sent : Sent) : [] ∉ sent.fields lines := by
  cases sent <;> simp [Sent.fields]

theorem fields_ne_nil (some : sent ≠ .keepAlive → lines ≠ []) : sent.fields lines ≠ [] := by
  cases sent with
  | chunk => simpa [Sent.fields] using some
  | error => exact List.cons_ne_nil _ _
  | keepAlive => exact List.cons_ne_nil _ _

theorem block_ends (single : ∀ line ∈ lines, '\n' ∉ line) (some : sent ≠ .keepAlive → lines ≠ []) :
    Search.Block "\n\n".toList (sent.block lines) := by
  constructor
  · obtain ⟨front, last, whole⟩ : ∃ front last, sent.fields lines = front ++ [last] :=
      ⟨_, _, (List.dropLast_concat_getLast (fields_ne_nil some)).symm⟩
    refine ⟨Text.unlines front ++ last, ?_⟩
    rw [Sent.block, whole]
    simp [Text.unlines]
  · rw [Sent.block, List.dropLast_concat]
    exact unlines_unbroken (fields_single single sent) (fields_some sent)

/-! ## Reading one event back -/

theorem stripReturn_append {front line : List Char} (last : front.getLast? ≠ some '\r') :
    Text.stripReturn (front ++ line) = front ++ Text.stripReturn line := by
  cases line using List.reverseRecOn with
  | nil => simp [Text.stripReturn, last]
  | append_singleton line char =>
      by_cases same : char = '\r'
      · simp [Text.stripReturn, same, ← List.append_assoc]
      · simp [Text.stripReturn, same, ← List.append_assoc]

theorem dataOf_field (line : List Char) :
    dataOf (Text.stripReturn ("data: ".toList ++ line)) = some (Text.stripReturn line) := by
  have parts (rest : List Char) : "data: ".toList ++ rest = "data:".toList ++ ([' '] ++ rest) := rfl
  rw [stripReturn_append (by decide), parts, dataOf, Text.stripPrefix_append, Option.map_some,
    Text.stripPrefix_append]
  rfl

theorem filterMap_data (lines : List (List Char)) :
    ((lines.map ("data: ".toList ++ ·)).map Text.stripReturn).filterMap dataOf =
      lines.map Text.stripReturn := by
  induction lines with
  | nil => rfl
  | cons line lines ih => simp only [List.map_cons, List.filterMap_cons, dataOf_field, ih]

theorem any_data (lines : List (List Char)) :
    ((lines.map ("data: ".toList ++ ·)).map Text.stripReturn).any saysError = false := by
  rw [List.any_eq_false]
  intro field member
  obtain ⟨shown, inside, rfl⟩ := List.mem_map.mp member
  obtain ⟨line, -, rfl⟩ := List.mem_map.mp inside
  rw [saysError, dataOf_field]
  exact Bool.false_ne_true

/-- What is read of an event with some lines of data. -/
def Sent.event (lines : List (List Char)) : Sent → Event
  | .chunk _ => .data (['\n'].intercalate (lines.map Text.stripReturn))
  | .error _ => .error (['\n'].intercalate (lines.map Text.stripReturn))
  | .keepAlive => .none

/-- An event is read back, without the carriage returns at the ends of its lines. -/
theorem parseEvent_block (single : ∀ line ∈ lines, '\n' ∉ line)
    (some : sent ≠ .keepAlive → lines ≠ []) : parseEvent (sent.block lines) = sent.event lines := by
  have read : Text.lines (sent.block lines) = (sent.fields lines).map Text.stripReturn ++ [[]] := by
    have whole : sent.block lines = Text.unlines (sent.fields lines ++ [[]]) := by
      simp [Sent.block, Text.unlines]
    have each : ∀ field ∈ sent.fields lines ++ [[]], '\n' ∉ field :=
      List.forall_mem_append.mpr
        ⟨fields_single single sent, List.forall_mem_singleton.mpr List.not_mem_nil⟩
    rw [whole, Text.lines_unlines each, List.map_append]
    rfl
  have empty : dataOf [] = Option.none ∧ saysError [] = false := by decide
  rw [parseEvent, read]
  simp only [List.filterMap_append, List.any_append, List.filterMap_cons, empty.1,
    List.filterMap_nil, List.append_nil, List.any_cons, empty.2, List.any_nil, Bool.or_false]
  cases sent with
  | chunk text =>
      have shown : (lines.map Text.stripReturn).isEmpty = false := by simpa using some
      rw [Sent.fields, filterMap_data, any_data, shown]
      rfl
  | error text =>
      have first : dataOf (Text.stripReturn "event: error".toList) = Option.none ∧
          saysError (Text.stripReturn "event: error".toList) = true := by decide
      have shown : (lines.map Text.stripReturn).isEmpty = false := by simpa using some
      rw [Sent.fields, List.map_cons, List.filterMap_cons, first.1, List.any_cons, first.2]
      simp only [filterMap_data, shown, Bool.true_or]
      rfl
  | keepAlive =>
      change _ = Event.none
      rw [Sent.fields]
      decide

end Blocks

/-! ## Taking events off the text -/

section Draining

/-- What an event adds to the standard output. -/
def Event.out : Event → List Char
  | .data text => text
  | _ => []

def Event.isError : Event → Bool
  | .error _ => true
  | _ => false

/-- The terminal once some blocks have been read. -/
def Terminal.writeAll (terminal : Terminal) (blocks : List (List Char)) : Terminal :=
  blocks.foldl (fun terminal block => terminal.write (parseEvent block)) terminal

variable {terminal : Terminal} {blocks : List (List Char)}

theorem write_buffer (terminal : Terminal) (buffer : List Char) (event : Event) :
    ({ terminal with buffer } : Terminal).write event = { terminal.write event with buffer } := by
  cases event <;> rfl

theorem writeAll_buffer (terminal : Terminal) (buffer : List Char) (blocks : List (List Char)) :
    ({ terminal with buffer } : Terminal).writeAll blocks =
      { terminal.writeAll blocks with buffer } := by
  induction blocks generalizing terminal with
  | nil => rfl
  | cons block blocks ih =>
      rw [Terminal.writeAll, List.foldl_cons, write_buffer]
      exact ih _

theorem writeAll_append (terminal : Terminal) (front back : List (List Char)) :
    terminal.writeAll (front ++ back) = (terminal.writeAll front).writeAll back :=
  List.foldl_append

theorem writeAll_out (terminal : Terminal) (blocks : List (List Char)) :
    (terminal.writeAll blocks).out =
      terminal.out ++ blocks.flatMap fun block => (parseEvent block).out := by
  induction blocks generalizing terminal with
  | nil => exact (List.append_nil _).symm
  | cons block blocks ih =>
      have one : (terminal.write (parseEvent block)).out =
          terminal.out ++ (parseEvent block).out := by
        cases parseEvent block <;> simp [Terminal.write, Event.out]
      rw [List.flatMap_cons, ← List.append_assoc, ← one]
      exact ih _

theorem writeAll_err (terminal : Terminal) (blocks : List (List Char)) :
    (terminal.writeAll blocks).err.length =
      terminal.err.length + (blocks.filter fun block => (parseEvent block).isError).length := by
  induction blocks generalizing terminal with
  | nil => rfl
  | cons block blocks ih =>
      refine (ih (terminal.write (parseEvent block))).trans ?_
      rw [List.filter_cons]
      cases parseEvent block with
      | error text =>
          simp [Terminal.write, Event.isError, Nat.add_assoc, Nat.add_comm 1]
      | data text => rfl
      | none => rfl

/-- With enough fuel every whole block is taken off the buffer. -/
theorem drain_spec {fuel : Nat} (enough : terminal.buffer.length ≤ fuel) :
    ∃ blocks rest, terminal.buffer = blocks.flatten ++ rest ∧
      (∀ block ∈ blocks, Search.Block "\n\n".toList block) ∧ ¬"\n\n".toList <:+: rest ∧
      terminal.drain fuel = { terminal.writeAll blocks with buffer := rest } := by
  induction fuel generalizing terminal with
  | zero =>
      have empty := List.eq_nil_of_length_eq_zero (Nat.le_zero.mp enough)
      refine ⟨[], [], by rw [empty]; rfl, by simp, by decide, ?_⟩
      rw [← empty]
      rfl
  | succ fuel ih =>
      rw [Terminal.drain]
      split
      · rename_i stop found
        obtain ⟨ends, same⟩ := Search.find_eq_some solid found
        change Search.Block _ (terminal.buffer.take (stop + 2)) at ends
        have taken := ends.ne_nil solid
        have shorter : (terminal.buffer.drop (stop + 2)).length ≤ fuel := by
          have some : terminal.buffer ≠ [] := fun empty => taken (by rw [empty, List.take_nil])
          have long := List.length_pos_of_ne_nil some
          rw [List.length_drop]
          omega
        obtain ⟨blocks, rest, whole, blocks_end, broken, drained⟩ := @ih
          ({ terminal with buffer := terminal.buffer.drop (stop + 2) }.write
            (parseEvent (terminal.buffer.take (stop + 2))))
          (by rw [write_buffer]; exact shorter)
        rw [write_buffer] at whole
        refine ⟨terminal.buffer.take (stop + 2) :: blocks, rest, ?_,
          List.forall_mem_cons.mpr ⟨ends, blocks_end⟩, broken, ?_⟩
        · rw [List.flatten_cons, List.append_assoc, ← whole, List.take_append_drop]
        · rw [drained, write_buffer, writeAll_buffer]
          rfl
      · rename_i none
        exact ⟨[], terminal.buffer, rfl, by simp, (Search.find_eq_none_iff solid).mp none, rfl⟩

/-- However the answer is cut, its whole blocks are written one after the other. -/
theorem print_spec (frames : List Frame) :
    ∃ blocks rest, (pieces frames).flatMap Utf8.fromUtf8Lossy = blocks.flatten ++ rest ∧
      (∀ block ∈ blocks, Search.Block "\n\n".toList block) ∧ ¬"\n\n".toList <:+: rest ∧
      print frames = { ({} : Terminal).writeAll blocks with buffer := rest } := by
  induction frames using List.reverseRecOn with
  | nil => exact ⟨[], [], rfl, by simp, by decide, rfl⟩
  | append_singleton frames frame ih =>
      obtain ⟨blocks, rest, whole, ends, broken, printed⟩ := ih
      have next : print (frames ++ [frame]) = (print frames).receive frame := by
        rw [print, List.foldl_append]
        rfl
      rw [next, printed, Terminal.receive]
      cases content : frame.intoData with
      | none =>
          refine ⟨blocks, rest, ?_, ends, broken, rfl⟩
          simpa [pieces, content] using whole
      | some data =>
          dsimp only
          obtain ⟨later, last, more, later_ends, last_broken, drained⟩ := @drain_spec
            { ({} : Terminal).writeAll blocks with buffer := rest ++ Utf8.fromUtf8Lossy data } _
            (Nat.le_refl _)
          refine ⟨blocks ++ later, last, ?_, List.forall_mem_append.mpr ⟨ends, later_ends⟩,
            last_broken, ?_⟩
          · have grown : pieces (frames ++ [frame]) = pieces frames ++ [data] := by
              simp [pieces, content]
            rw [grown, List.flatMap_append, whole, List.flatten_append, List.append_assoc,
              List.append_assoc, ← more, List.flatMap_singleton]
          · rw [drained, writeAll_append, writeAll_buffer]

end Draining

/-! ## What the frames spell -/

section Spelling

variable {lines : List (List Char)}

/-- The lines are those of the event, up to characters that have been cut. -/
def Spells (sent : Sent) (lines : List (List Char)) : Prop :=
  List.Forall₂ Utf8.Alike sent.lines lines

theorem lines_single (sent : Sent) : ∀ line ∈ sent.lines, '\n' ∉ line := by
  cases sent with
  | chunk => exact fun line member => Text.not_mem_of_mem_splitOn member
  | error => exact fun line member => Text.not_mem_of_mem_splitOn member
  | keepAlive => exact fun line member => absurd member List.not_mem_nil

theorem lines_some (some : sent ≠ .keepAlive) : sent.lines ≠ [] := by
  cases sent with
  | chunk => exact List.splitOn_ne_nil _ _
  | error => exact List.splitOn_ne_nil _ _
  | keepAlive => exact absurd rfl some

theorem Spells.single (spells : Spells sent lines) : ∀ line ∈ lines, '\n' ∉ line := by
  have single := lines_single sent
  rw [Spells] at spells
  generalize sent.lines = texts at single spells
  induction spells with
  | nil => exact fun line member => absurd member List.not_mem_nil
  | cons alike _ ih =>
      rw [List.forall_mem_cons] at single ⊢
      refine ⟨?_, ih single.2⟩
      rw [← List.count_eq_zero, alike.count (by decide), List.count_eq_zero]
      exact single.1

theorem Spells.some (spells : Spells sent lines) (some : sent ≠ .keepAlive) : lines ≠ [] := by
  rintro rfl
  exact lines_some some (List.forall₂_nil_right_iff.mp spells)

theorem spells_self (sent : Sent) : Spells sent sent.lines :=
  List.forall₂_same.mpr fun line _ => Utf8.Alike.refl line

theorem alike_unlines {texts : List (List Char)} {read : List Char}
    (alike : Utf8.Alike (Text.unlines texts) read) :
    ∃ others, read = Text.unlines others ∧ List.Forall₂ Utf8.Alike texts others := by
  induction texts generalizing read with
  | nil =>
      rw [alike.eq fun char member => absurd member List.not_mem_nil]
      exact ⟨[], rfl, .nil⟩
  | cons line texts ih =>
      rw [Text.unlines, List.flatMap_cons] at alike
      obtain ⟨first, rest, rfl, line_alike, later⟩ := alike.append
      obtain ⟨other, newline, rfl, alike_line, ended⟩ := line_alike.append
      rw [ended.eq (List.forall_mem_singleton.mpr (by decide))]
      obtain ⟨others, rfl, all⟩ := ih later
      exact ⟨other :: others, rfl, .cons alike_line all⟩

theorem alike_data {texts others : List (List Char)}
    (alike : List.Forall₂ Utf8.Alike (texts.map ("data: ".toList ++ ·)) others) :
    ∃ lines, others = lines.map ("data: ".toList ++ ·) ∧
      List.Forall₂ Utf8.Alike texts lines := by
  induction texts generalizing others with
  | nil =>
      rw [List.map_nil, List.forall₂_nil_left_iff] at alike
      exact ⟨[], alike, .nil⟩
  | cons text texts ih =>
      rw [List.map_cons, List.forall₂_cons_left_iff] at alike
      obtain ⟨field, fields, first, later, rfl⟩ := alike
      obtain ⟨name, line, rfl, named, alike_line⟩ := first.append
      rw [named.eq (by simp [Utf8.Ascii])]
      obtain ⟨lines, rfl, all⟩ := ih later
      exact ⟨line :: lines, rfl, .cons alike_line all⟩

/-- Whatever an event is read as is one of the same kind. -/
theorem spells_of_alike {read : List Char} (alike : Utf8.Alike sent.wire read) :
    ∃ lines, read = sent.block lines ∧ Spells sent lines := by
  obtain ⟨front, newline, rfl, body, ended⟩ := alike.append
  rw [ended.eq (List.forall_mem_singleton.mpr (by decide))]
  obtain ⟨others, rfl, all⟩ := alike_unlines body
  cases sent with
  | chunk text =>
      obtain ⟨lines, rfl, spells⟩ := alike_data all
      exact ⟨lines, rfl, spells⟩
  | error text =>
      obtain ⟨first, rest, head, later, rfl⟩ := List.forall₂_cons_left_iff.mp all
      obtain ⟨lines, rfl, spells⟩ := alike_data later
      rw [head.eq (by simp [Utf8.Ascii])]
      exact ⟨lines, rfl, spells⟩
  | keepAlive =>
      obtain ⟨first, rest, head, later, rfl⟩ := List.forall₂_cons_left_iff.mp all
      rw [head.eq (by simp [Utf8.Ascii]), List.forall₂_nil_left_iff.mp later]
      exact ⟨[], rfl, .nil⟩

/-- The characters of an event of a chunk are those of its lines, but for some of one byte. -/
theorem count_block (text : List Char) (lines : List (List Char)) :
    (Sent.block lines (.chunk text)).count Utf8.replacement =
      lines.flatten.count Utf8.replacement := by
  rw [Sent.block, Sent.fields, Text.unlines]
  induction lines with
  | nil => decide
  | cons line lines ih =>
      rw [List.map_cons, List.flatMap_cons, List.append_assoc, List.count_append, ih,
        List.flatten_cons, List.count_append, List.count_append, List.count_append]
      have none : "data: ".toList.count Utf8.replacement = 0 ∧
          ['\n'].count Utf8.replacement = 0 := by decide
      rw [none.1, none.2, Nat.zero_add, Nat.add_zero]

/-- The frames of an event spell it; those of a chunk spell it as it is exactly if they end inside
none of its characters. -/
theorem spelled_one {pieces : List (List UInt8)} (whole : pieces.flatten = Utf8.encode sent.wire) :
    ∃ lines, pieces.flatMap Utf8.fromUtf8Lossy = sent.block lines ∧ Spells sent lines ∧
      (Utf8.CutsWhole [] pieces ∧ lines = sent.lines ∨
        ¬Utf8.CutsWhole [] pieces ∧ (sent.isChunk →
          sent.lines.flatten.count Utf8.replacement < lines.flatten.count Utf8.replacement)) := by
  by_cases uncut : Utf8.CutsWhole [] pieces
  · refine ⟨sent.lines, ?_, spells_self sent, .inl ⟨uncut, rfl⟩⟩
    rw [Utf8.flatMap_of_cutsWhole uncut, whole, Utf8.fromUtf8Lossy_encode]
    rfl
  · obtain ⟨lines, read, spells⟩ := spells_of_alike (Utf8.alike_of_pieces sent.wire whole)
    refine ⟨lines, read, spells, .inr ⟨uncut, fun chunk => ?_⟩⟩
    have less := Utf8.count_lt_of_not_cutsWhole uncut
    rw [whole, Utf8.fromUtf8Lossy_encode, read] at less
    cases sent with
    | chunk text => simpa only [Sent.wire, count_block] using less
    | error => cases chunk
    | keepAlive => cases chunk

/-- The frames of some events spell them one after the other. -/
theorem spelled (sent : List Sent) {pieces : List (List UInt8)}
    (whole : pieces.flatten = Utf8.encode (sent.flatMap Sent.wire)) :
    ∃ spelling : List (Sent × List (List Char)), spelling.map Prod.fst = sent ∧
      pieces.flatMap Utf8.fromUtf8Lossy =
        (spelling.map fun spelt => spelt.1.block spelt.2).flatten ∧
      (∀ spelt ∈ spelling, Spells spelt.1 spelt.2) ∧
      ((∀ spelt ∈ spelling, spelt.1.isChunk → spelt.2 = spelt.1.lines) ↔ ChunksWhole sent pieces) ∧
      ∀ spelt ∈ spelling, spelt.1.isChunk → spelt.2 = spelt.1.lines ∨
        spelt.1.lines.flatten.count Utf8.replacement < spelt.2.flatten.count Utf8.replacement := by
  induction sent generalizing pieces with
  | nil =>
      refine ⟨[], rfl, ?_, by simp, by simp [ChunksWhole], by simp⟩
      rw [List.map_nil, List.flatten_nil, List.flatMap_eq_nil_iff]
      intro piece member
      rw [List.flatten_eq_nil_iff.mp whole piece member]
      rfl
  | cons first later ih =>
      rw [List.flatMap_cons, Utf8.encode_append] at whole
      obtain ⟨front_whole, back_whole⟩ := Utf8.cutAt_flatten whole
      obtain ⟨spelling, same, read, spells, uncut, differ⟩ := ih back_whole
      obtain ⟨lines, first_read, first_spells, either⟩ := spelled_one front_whole
      refine ⟨(first, lines) :: spelling, congrArg (first :: ·) same, ?_,
        List.forall_mem_cons.mpr ⟨first_spells, spells⟩, ?_,
        List.forall_mem_cons.mpr ⟨fun chunk => ?_, differ⟩⟩
      · rw [Utf8.cutAt_read whole (Utf8.leads_encode _), first_read, read]
        rfl
      · rw [List.forall_mem_cons, ChunksWhole, uncut]
        refine and_congr (forall_congr' fun chunk => ?_) Iff.rfl
        rcases either with ⟨uncut, rfl⟩ | ⟨cut, more⟩
        · exact ⟨fun _ => uncut, fun _ => rfl⟩
        · refine ⟨?_, fun uncut => absurd uncut cut⟩
          rintro (rfl : lines = first.lines)
          exact absurd (more chunk) (Nat.lt_irrefl _)
      · exact either.imp And.right fun cut => cut.2 chunk

end Spelling

/-! ## What is printed -/

section Printing

theorem count_intercalate {char : Char} (other : char ≠ '\n') (lines : List (List Char)) :
    (['\n'].intercalate lines).count char = lines.flatten.count char := by
  induction lines with
  | nil => rfl
  | cons line lines ih =>
      cases lines with
      | nil => simp
      | cons next lines =>
          rw [List.intercalate_cons_cons, List.count_append, List.count_append, ih,
            List.count_singleton, if_neg (by simpa using other.symm), Nat.add_zero,
            ← List.count_append]
          rfl

theorem stripReturn_cases (line : List Char) :
    line.getLast? ≠ some '\r' ∧ Text.stripReturn line = line ∨
      line.getLast? = some '\r' ∧ line = Text.stripReturn line ++ ['\r'] := by
  rw [Text.stripReturn]
  split
  · rename_i returned
    obtain ⟨front, rfl⟩ := List.getLast?_eq_some_iff.mp returned
    exact .inr ⟨returned, by rw [List.dropLast_concat]⟩
  · rename_i unreturned
    exact .inl ⟨unreturned, rfl⟩

theorem count_stripReturn {char : Char} (other : char ≠ '\r') (lines : List (List Char)) :
    (lines.map Text.stripReturn).flatten.count char = lines.flatten.count char := by
  induction lines with
  | nil => rfl
  | cons line lines ih =>
      rw [List.map_cons, List.flatten_cons, List.flatten_cons, List.count_append,
        List.count_append, ih]
      rcases stripReturn_cases line with ⟨-, same⟩ | ⟨-, whole⟩
      · rw [same]
      · conv_rhs => rw [whole, List.count_append, List.count_singleton,
          if_neg (by simpa using other.symm), Nat.add_zero]

/-- A line that ends with a carriage return loses it. -/
theorem count_return (lines : List (List Char)) :
    (lines.map Text.stripReturn).flatten.count '\r' ≤ lines.flatten.count '\r' ∧
      ((lines.map Text.stripReturn).flatten.count '\r' = lines.flatten.count '\r' →
        ∀ line ∈ lines, line.getLast? ≠ some '\r') := by
  induction lines with
  | nil => exact ⟨Nat.le_refl _, fun _ line member => absurd member List.not_mem_nil⟩
  | cons line lines ih =>
      rw [List.map_cons, List.flatten_cons, List.flatten_cons, List.count_append,
        List.count_append, List.forall_mem_cons]
      rcases stripReturn_cases line with ⟨unreturned, same⟩ | ⟨-, whole⟩
      · rw [same]
        exact ⟨Nat.add_le_add_left ih.1 _, fun equal =>
          ⟨unreturned, ih.2 (Nat.add_left_cancel equal)⟩⟩
      · have more : line.count '\r' = (Text.stripReturn line).count '\r' + 1 := by
          conv_lhs => rw [whole, List.count_append, List.count_singleton_self]
        have less := ih.1
        exact ⟨by omega, fun equal => by omega⟩

theorem map_stripReturn {lines : List (List Char)}
    (unreturned : ∀ line ∈ lines, line.getLast? ≠ some '\r') :
    lines.map Text.stripReturn = lines :=
  (List.map_congr_left fun line member => if_neg (unreturned line member)).trans (List.map_id _)

/-- Texts put together that have a character equally often have it so one by one, if none of them
has it less often. -/
theorem counts_eq {σ : Type} {items : List σ} {sent shown : σ → List Char} (char : Char)
    (less : ∀ item ∈ items, (sent item).count char ≤ (shown item).count char)
    (same : (items.flatMap sent).count char = (items.flatMap shown).count char) :
    ∀ item ∈ items, (sent item).count char = (shown item).count char := by
  induction items with
  | nil => exact fun item member => absurd member List.not_mem_nil
  | cons item items ih =>
      obtain ⟨first, later⟩ := List.forall_mem_cons.mp less
      rw [List.flatMap_cons, List.flatMap_cons, List.count_append, List.count_append] at same
      have rest : (items.flatMap sent).count char ≤ (items.flatMap shown).count char := by
        clear ih same first less
        induction items with
        | nil => exact Nat.le_refl _
        | cons item items ih =>
            obtain ⟨first, later⟩ := List.forall_mem_cons.mp later
            rw [List.flatMap_cons, List.flatMap_cons, List.count_append, List.count_append]
            exact Nat.add_le_add first (ih later)
      exact List.forall_mem_cons.mpr ⟨by omega, ih later (by omega)⟩

/-- What is read of one event. -/
abbrev Spelt := Sent × List (List Char)

/-- What is printed of an event is what has been sent of it exactly if its lines are those that have
been sent and none of them ends with a carriage return. -/
theorem out_eq {spelt : Spelt} (same : spelt.1.isChunk → spelt.2 = spelt.1.lines)
    (unreturned : ∀ text, spelt.1 = .chunk text → Unreturned text) :
    (spelt.1.event spelt.2).out = spelt.1.text := by
  obtain ⟨sent, lines⟩ := spelt
  cases sent with
  | chunk text =>
      obtain rfl : lines = text.splitOn '\n' := same rfl
      change ['\n'].intercalate ((text.splitOn '\n').map Text.stripReturn) = text
      rw [map_stripReturn (unreturned text rfl)]
      exact List.intercalate_splitOn '\n'
  | error => rfl
  | keepAlive => rfl

theorem count_out (spelt : Spelt) (chunk : spelt.1.isChunk) (char : Char)
    (newline : char ≠ '\n') : spelt.1.text.count char = spelt.1.lines.flatten.count char ∧
      (spelt.1.event spelt.2).out.count char =
        (spelt.2.map Text.stripReturn).flatten.count char := by
  obtain ⟨sent, lines⟩ := spelt
  cases sent with
  | chunk text =>
      refine ⟨?_, count_intercalate newline _⟩
      change text.count char = (text.splitOn '\n').flatten.count char
      rw [← count_intercalate newline, List.intercalate_splitOn]
  | error => cases chunk
  | keepAlive => cases chunk

theorem out_of_not_chunk {spelt : Spelt} (other : spelt.1.isChunk = false) :
    (spelt.1.event spelt.2).out = [] ∧ spelt.1.text = [] := by
  obtain ⟨sent, lines⟩ := spelt
  cases sent with
  | chunk => cases other
  | error => exact ⟨rfl, rfl⟩
  | keepAlive => exact ⟨rfl, rfl⟩

/-- If all that is printed is all that has been sent, no character of a chunk has been cut and no
line of a chunk ends with a carriage return. -/
theorem of_out_eq {spelling : List Spelt}
    (differ : ∀ spelt ∈ spelling, spelt.1.isChunk → spelt.2 = spelt.1.lines ∨
      spelt.1.lines.flatten.count Utf8.replacement < spelt.2.flatten.count Utf8.replacement)
    (same : (spelling.flatMap fun spelt => (spelt.1.event spelt.2).out) =
      spelling.flatMap fun spelt => spelt.1.text) :
    (∀ spelt ∈ spelling, spelt.1.isChunk → spelt.2 = spelt.1.lines) ∧
      ∀ spelt ∈ spelling, ∀ text, spelt.1 = .chunk text → Unreturned text := by
  have uncut : ∀ spelt ∈ spelling, spelt.1.isChunk → spelt.2 = spelt.1.lines := by
    -- as many replacement characters are printed as have been sent
    have equal := counts_eq Utf8.replacement (fun spelt member => ?_)
      (congrArg (List.count Utf8.replacement) same.symm)
    · intro spelt member chunk
      obtain ⟨sent_count, shown_count⟩ := count_out spelt chunk Utf8.replacement (by decide)
      have here := equal spelt member
      rw [sent_count, shown_count, count_stripReturn (by decide)] at here
      exact (differ spelt member chunk).resolve_right (Nat.lt_irrefl _ <| here ▸ ·)
    · by_cases chunk : spelt.1.isChunk
      · obtain ⟨sent_count, shown_count⟩ := count_out spelt chunk Utf8.replacement (by decide)
        rw [sent_count, shown_count, count_stripReturn (by decide)]
        rcases differ spelt member chunk with same | less
        · rw [same]
        · exact Nat.le_of_lt less
      · obtain ⟨none, nothing⟩ := out_of_not_chunk (Bool.eq_false_iff.mpr chunk)
        rw [none, nothing]
  refine ⟨uncut, ?_⟩
  -- as many carriage returns are printed as have been sent
  have equal := counts_eq '\r' (fun spelt member => ?_)
    (congrArg (List.count '\r') same)
  · rintro ⟨sent, lines⟩ member text rfl
    obtain ⟨sent_count, shown_count⟩ := count_out (.chunk text, lines) rfl '\r' (by decide)
    have here := equal _ member
    have lines_eq : lines = text.splitOn '\n' := uncut _ member rfl
    rw [sent_count, shown_count, lines_eq] at here
    exact (count_return _).2 here
  · by_cases chunk : spelt.1.isChunk
    · obtain ⟨sent_count, shown_count⟩ := count_out spelt chunk '\r' (by decide)
      rw [sent_count, shown_count, uncut spelt member chunk]
      exact (count_return _).1
    · obtain ⟨none, nothing⟩ := out_of_not_chunk (Bool.eq_false_iff.mpr chunk)
      rw [none, nothing]

theorem isError_event (spelt : Spelt) : (spelt.1.event spelt.2).isError = spelt.1.isError := by
  obtain ⟨sent, lines⟩ := spelt
  cases sent <;> rfl

/-- The blocks of the answer are the events, each with what is read of its lines. -/
theorem print_eq {sent : List Sent} {frames : List Frame} {spelling : List Spelt}
    (same : spelling.map Prod.fst = sent)
    (read : (pieces frames).flatMap Utf8.fromUtf8Lossy =
      (spelling.map fun spelt => spelt.1.block spelt.2).flatten)
    (spells : ∀ spelt ∈ spelling, Spells spelt.1 spelt.2) :
    (print frames).out = (spelling.flatMap fun spelt => (spelt.1.event spelt.2).out) ∧
      (print frames).err.length = (sent.filter Sent.isError).length := by
  obtain ⟨blocks, rest, heard, ends, broken, printed⟩ := print_spec frames
  have parsed : ∀ spelt ∈ spelling, parseEvent (spelt.1.block spelt.2) = spelt.1.event spelt.2 :=
    fun spelt member => parseEvent_block (spells spelt member).single (spells spelt member).some
  have others_end : ∀ block ∈ spelling.map fun spelt => spelt.1.block spelt.2,
      Search.Block "\n\n".toList block := by
    intro block member
    obtain ⟨spelt, here, rfl⟩ := List.mem_map.mp member
    exact block_ends (spells spelt here).single (spells spelt here).some
  obtain ⟨rfl, -⟩ := Search.blocks_unique solid ends others_end broken (heard.symm.trans read)
  rw [printed]
  constructor
  · change (Terminal.writeAll {} _).out = _
    rw [writeAll_out, List.flatMap_map]
    exact List.flatMap_congr fun spelt member => by rw [parsed spelt member]
  · change (Terminal.writeAll {} _).err.length = _
    rw [writeAll_err, List.filter_map, List.length_map, ← same, List.filter_map, List.length_map]
    refine (Nat.zero_add _).trans (congrArg List.length (List.filter_congr fun spelt member => ?_))
    rw [Function.comp_apply, parsed spelt member, isError_event]
    rfl

/-- What is printed is what has been sent exactly if no frame ends inside a character of a chunk and
no line of a chunk ends with a carriage return. -/
theorem printed_iff {sent : List Sent} {frames : List Frame}
    (cut : (pieces frames).flatten = Utf8.encode (sent.flatMap Sent.wire)) :
    Printed sent frames ↔ ChunksWhole sent (pieces frames) ∧
      ∀ text, .chunk text ∈ sent → Unreturned text := by
  obtain ⟨spelling, same, read, spells, uncut, differ⟩ := spelled sent cut
  obtain ⟨out, err⟩ := print_eq same read spells
  have texts : sent.flatMap Sent.text = spelling.flatMap fun spelt => spelt.1.text := by
    rw [← same, List.flatMap_map]
  rw [← uncut]
  constructor
  · intro printed
    obtain ⟨whole, unreturned⟩ := of_out_eq differ (by rw [← out, ← texts, printed.out])
    refine ⟨whole, fun text member => ?_⟩
    rw [← same] at member
    obtain ⟨spelt, here, is_chunk⟩ := List.mem_map.mp member
    exact unreturned spelt here text is_chunk
  · rintro ⟨whole, unreturned⟩
    refine ⟨?_, err⟩
    rw [out, texts]
    refine List.flatMap_congr fun spelt member => out_eq (whole spelt member) fun text here => ?_
    refine unreturned text ?_
    rw [← same, ← here]
    exact List.mem_map_of_mem member

/-- The frames of a chunk and a keep-alive, cut between the two newlines that end the first. -/
theorem printed_cut_apart :
    Printed [.chunk "ok\n".toList, .keepAlive]
        [.data (Utf8.encode "data: ok\ndata: \n".toList), .trailers,
          .data (Utf8.encode "\n:\n\n".toList)] ↔
      ChunksWhole [.chunk "ok\n".toList, .keepAlive]
          [Utf8.encode "data: ok\ndata: \n".toList, Utf8.encode "\n:\n\n".toList] ∧
        ∀ text, .chunk text ∈ [Sent.chunk "ok\n".toList, .keepAlive] → Unreturned text :=
  printed_iff (by decide)

/-- A character whose bytes come in two frames is printed as two others. -/
theorem chunk_garbled : ¬∀ (sent : List Sent) (frames : List Frame),
    (pieces frames).flatten = Utf8.encode (sent.flatMap Sent.wire) → Printed sent frames := by
  intro printed
  have same := (printed [.chunk "é".toList]
    [.data [0x64, 0x61, 0x74, 0x61, 0x3A, 0x20, 0xC3], .data [0xA9, 0x0A, 0x0A]]
    (by decide)).out
  revert same
  decide

/-- A line that ends with a carriage return is printed without it. -/
example : (print [.data (Utf8.encode "data: 50%\r\ndata: \n\n".toList)]).out = "50%\n".toList := by
  decide

end Printing

end LogPrint
end Fghj
