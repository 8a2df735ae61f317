import Fghj.Library.Utf8
import Fghj.LogCapture

/-!
# How the stream of a container is cut

Docker hands over what a container writes in messages that may end anywhere. A capture decodes each
message by itself and keeps, of each stream, what follows the last newline. The lines it stores are
those of the two texts, however the streams are interleaved; they are independent of the cuts as
well, unless a cut runs through a character.
-/

namespace Fghj
namespace Logs

/-- What a container writes, in messages. -/
inductive LogOutput where
  | stdErr (message : List UInt8)
  | stdOut (message : List UInt8)
  | stdIn (message : List UInt8)
  | console (message : List UInt8)
  deriving DecidableEq

/-- The stream a message is kept under; input is skipped. -/
def LogOutput.heard : LogOutput → Option (Stream × List UInt8)
  | .stdOut message => some (.stdout, message)
  | .console message => some (.stdout, message)
  | .stdErr message => some (.stderr, message)
  | .stdIn _ => none

/-- A capture and the table it writes. -/
structure Recording where
  table : LogTable
  capture : Capture

namespace Recording

/-- Stores what the capture has handed over. -/
def store (recording : Recording) (phase : Phase) : Recording where
  table := recording.table.insertLogLines recording.capture.nodeId recording.capture.generation
    recording.capture.pending
  capture := recording.capture.resume phase

/-- A message arrives, half a second after the last flush or sooner. -/
def receive (recording : Recording) (output : LogOutput × Bool) : Recording :=
  match output.1.heard with
  | some (stream, message) =>
      let read := recording.capture.item stream (Utf8.fromUtf8Lossy message) output.2
      { recording with capture := read }.store .streaming
  | none => recording

/-- The stream ends. -/
def finish (recording : Recording) : Recording :=
  { recording with capture := recording.capture.close }.store .ended

/-- A generation of the node begins. -/
def begins (table : LogTable) (nodeId : String) : Recording where
  table := (table.beginLogGeneration nodeId).1
  capture := { nodeId, phase := .streaming, generation := (table.beginLogGeneration nodeId).2 }

end Recording

/-- The table once the messages of a container have been captured. -/
def captureContainerLogs (table : LogTable) (nodeId : String) (outputs : List (LogOutput × Bool)) :
    LogTable :=
  (outputs.foldl Recording.receive (.begins table nodeId)).finish.table

/-- The lines that have been captured, in order. -/
def captured (table : LogTable) (nodeId : String) (outputs : List (LogOutput × Bool)) :
    List LogLine :=
  (captureContainerLogs table nodeId outputs).history nodeId (table.nextGeneration nodeId)

/-- The message, if it is one of the stream. -/
def LogOutput.messageOf (stream : Stream) (output : LogOutput) : Option (List UInt8) :=
  (output.heard.filter fun heard => heard.1 == stream).map Prod.snd

/-- The messages of a stream. -/
def messages (stream : Stream) (outputs : List (LogOutput × Bool)) : List (List UInt8) :=
  outputs.filterMap fun output => output.1.messageOf stream

/-- What stands before and after the first space of a line: the time and the text. -/
def stamped (rawLine : List Char) : List Char × List Char :=
  (Text.splitOnce ' ' rawLine).getD ([], rawLine)

/-- The lines of a stream. -/
def linesOn (stream : Stream) (lines : List LogLine) : List (List Char × List Char) :=
  (lines.filter fun line => line.stream == stream).map fun line => (line.ts, line.line)

/-- What has been captured does not depend on the cuts. -/
structure Recorded (table : LogTable) (nodeId : String) (outputs : List (LogOutput × Bool)) :
    Prop where
  /-- The lines of both streams together are counted from nothing on. -/
  counted : (captured table nodeId outputs).map LogLine.seq =
    (List.range (captured table nodeId outputs).length).map Int.ofNat
  /-- The lines of a stream are those it has if the other says nothing. -/
  apart : ∀ stream, linesOn stream (captured table nodeId outputs) =
    linesOn stream (captured table nodeId
      (outputs.filter fun output => (output.1.messageOf stream).isSome))
  /-- They are the lines of its text. -/
  split : ∀ stream, linesOn stream (captured table nodeId outputs) =
    (Text.rawLines (Utf8.fromUtf8Lossy (messages stream outputs).flatten)).map stamped
  /-- They are those of the same bytes in one message. -/
  whole : ∀ (stream : Stream) (one : List (LogOutput × Bool)),
    messages stream one = [(messages stream outputs).flatten] →
      linesOn stream (captured table nodeId outputs) = linesOn stream (captured table nodeId one)

/-! ## One capture -/

section Reading

variable {capture : Capture} {handed : List LogLine} {heard : Stream → List Char} {stream : Stream}

/-- The lines are counted from nothing on. -/
def Counted (lines : List LogLine) : Prop :=
  lines.map LogLine.seq = (List.range lines.length).map Int.ofNat

/-- The lines handed over and buffered are those of what has been heard of the streams, up to what
is left over. -/
structure Reading (capture : Capture) (handed : List LogLine) (heard : Stream → List Char) :
    Prop where
  counted : Counted (handed ++ capture.buffer)
  next : capture.seq = (handed ++ capture.buffer).length
  read : ∀ stream, ∃ rawLines, (∀ rawLine ∈ rawLines, '\n' ∉ rawLine) ∧
    heard stream = Text.unlines rawLines ++ capture.leftover stream ∧
    linesOn stream (handed ++ capture.buffer) = rawLines.map stamped

theorem Counted.concat {lines : List LogLine} (counted : Counted lines) {line : LogLine}
    (next : line.seq = lines.length) : Counted (lines ++ [line]) := by
  rw [Counted, List.map_append, counted, List.length_append, List.length_singleton,
    List.range_succ, List.map_append, List.map_singleton, List.map_singleton, next]
  rfl

theorem Counted.ascending {lines : List LogLine} (counted : Counted lines) :
    Paging.Ascending LogLine.seq lines := by
  have ordered : ((List.range lines.length).map Int.ofNat).Pairwise (· < ·) :=
    List.pairwise_map.mpr (List.pairwise_lt_range.imp fun less => Int.ofNat_lt.mpr less)
  rw [← counted] at ordered
  exact List.pairwise_map.mp ordered

@[simp]
theorem linesOn_append (stream : Stream) (front back : List LogLine) :
    linesOn stream (front ++ back) = linesOn stream front ++ linesOn stream back := by
  simp [linesOn]

theorem leftover_setLeftover (capture : Capture) (text : List Char) (changed stream : Stream) :
    (capture.setLeftover text changed).leftover stream =
      if stream = changed then text else capture.leftover stream := by
  cases changed <;> cases stream <;> rfl

@[simp]
theorem buffer_setLeftover (capture : Capture) (text : List Char) (stream : Stream) :
    (capture.setLeftover text stream).buffer = capture.buffer := by
  cases stream <;> rfl

@[simp]
theorem seq_setLeftover (capture : Capture) (text : List Char) (stream : Stream) :
    (capture.setLeftover text stream).seq = capture.seq := by
  cases stream <;> rfl

@[simp]
theorem leftover_pushLine (capture : Capture) (pushed stream : Stream) (rawLine : List Char) :
    (capture.pushLine pushed rawLine).leftover stream = capture.leftover stream := by
  cases stream <;> rfl

theorem buffer_pushLine (capture : Capture) (stream : Stream) (rawLine : List Char) :
    (capture.pushLine stream rawLine).buffer = capture.buffer ++
      [⟨capture.seq, stream, (stamped rawLine).1, (stamped rawLine).2⟩] :=
  rfl

theorem seq_pushLine (capture : Capture) (stream : Stream) (rawLine : List Char) :
    (capture.pushLine stream rawLine).seq = capture.seq + 1 :=
  rfl

/-- A message is heard and left over for now. -/
theorem Reading.hear (reading : Reading capture handed heard) (message : List Char) :
    Reading (capture.setLeftover (capture.leftover stream ++ message) stream) handed
      fun other => if other = stream then heard other ++ message else heard other where
  counted := by simpa using reading.counted
  next := by simpa using reading.next
  read other := by
    obtain ⟨rawLines, single, whole, lines⟩ := reading.read other
    refine ⟨rawLines, single, ?_, by simpa using lines⟩
    rw [leftover_setLeftover]
    split
    · rename_i same
      rw [whole, same, List.append_assoc]
    · exact whole

/-- A line is taken off what is left over, with its newline or as the last of all. -/
theorem Reading.push (reading : Reading capture handed heard) (ending : List Char)
    {rawLine rest : List Char} (single : '\n' ∉ rawLine)
    (left : capture.leftover stream ++ ending = rawLine ++ '\n' :: rest) :
    Reading ((capture.setLeftover rest stream).pushLine stream rawLine) handed
      fun other => if other = stream then heard other ++ ending else heard other where
  counted := by
    rw [buffer_pushLine, buffer_setLeftover, ← List.append_assoc]
    exact reading.counted.concat ((seq_setLeftover _ _ _).trans reading.next)
  next := by
    rw [seq_pushLine, buffer_pushLine, buffer_setLeftover, seq_setLeftover, reading.next,
      ← List.append_assoc, @List.length_append _ (handed ++ capture.buffer)]
    rfl
  read other := by
    obtain ⟨rawLines, lines_single, whole, lines⟩ := reading.read other
    rw [buffer_pushLine, buffer_setLeftover, ← List.append_assoc, linesOn_append, lines,
      leftover_pushLine, leftover_setLeftover]
    split
    · rename_i same
      refine ⟨rawLines ++ [rawLine], ?_, ?_, ?_⟩
      · exact List.forall_mem_append.mpr ⟨lines_single, List.forall_mem_singleton.mpr single⟩
      · rw [whole, same, List.append_assoc, left]
        simp [Text.unlines]
      · simp [linesOn, same]
    · rename_i other_stream
      refine ⟨rawLines, lines_single, whole, ?_⟩
      simp [linesOn, Ne.symm other_stream]

theorem Reading.takeLines (fuel : Nat) (reading : Reading capture handed heard) :
    Reading (Capture.takeLines stream fuel capture) handed heard := by
  induction fuel generalizing capture with
  | zero => exact reading
  | succ fuel ih =>
      rw [Capture.takeLines]
      split
      · exact reading
      · rename_i rawLine rest found
        have single := Text.not_mem_of_splitOnce found
        have left := Text.eq_of_splitOnce found
        have pushed := reading.push [] single (by rw [List.append_nil, left])
        simp only [List.append_nil, ite_self] at pushed
        exact ih pushed

/-- With enough fuel every newline is taken off the stream, and the other one is left alone. -/
theorem leftover_takeLines {fuel : Nat} (enough : (capture.leftover stream).length ≤ fuel) :
    '\n' ∉ (Capture.takeLines stream fuel capture).leftover stream ∧
      ∀ other ≠ stream, (Capture.takeLines stream fuel capture).leftover other =
        capture.leftover other := by
  induction fuel generalizing capture with
  | zero =>
      have empty := List.eq_nil_of_length_eq_zero (Nat.le_zero.mp enough)
      exact ⟨by simp [Capture.takeLines, empty], fun _ _ => rfl⟩
  | succ fuel ih =>
      rw [Capture.takeLines]
      split
      · rename_i none
        exact ⟨Text.not_mem_of_splitOnce_eq_none none, fun _ _ => rfl⟩
      · rename_i rawLine rest found
        have shorter : rest.length ≤ fuel := by
          rw [Text.eq_of_splitOnce found, List.length_append, List.length_cons] at enough
          omega
        obtain ⟨taken, others⟩ := @ih ((capture.setLeftover rest stream).pushLine stream rawLine)
          (by simpa [leftover_setLeftover] using shorter)
        refine ⟨taken, fun other different => ?_⟩
        rw [others other different, leftover_pushLine, leftover_setLeftover, if_neg different]

theorem Reading.congr (reading : Reading capture handed heard) {after : Capture}
    {stored : List LogLine} (lines : stored ++ after.buffer = handed ++ capture.buffer)
    (seq : after.seq = capture.seq)
    (leftover : ∀ stream, after.leftover stream = capture.leftover stream) :
    Reading after stored heard where
  counted := by
    rw [lines]
    exact reading.counted
  next := by rw [lines, seq, reading.next]
  read stream := by
    rw [lines, leftover]
    exact reading.read stream

/-- What is left over of a stream becomes its last line, as if it were ended by a newline. -/
theorem Reading.pushLeftover (reading : Reading capture handed heard)
    (unended : '\n' ∉ capture.leftover stream) :
    ∃ closed, Reading (capture.pushLeftover stream) handed closed ∧
      (∀ other, Text.rawLines (closed other) = Text.rawLines (heard other)) ∧
      ∀ other, (capture.pushLeftover stream).leftover other =
        if other = stream then [] else capture.leftover other := by
  rw [Capture.pushLeftover]
  split
  · rename_i empty
    refine ⟨heard, reading, fun _ => rfl, fun other => ?_⟩
    split
    · rename_i same
      rw [same, List.isEmpty_iff.mp empty]
    · rfl
  · rename_i some
    refine ⟨_, reading.push ['\n'] unended rfl, fun other => ?_, fun other => ?_⟩
    · split
      · rename_i same
        obtain ⟨rawLines, single, whole, -⟩ := reading.read other
        rw [whole, same, Text.rawLines_unlines_append single unended, List.append_assoc]
        have ended : Text.unlines rawLines ++ (capture.leftover stream ++ ['\n']) =
            Text.unlines (rawLines ++ [capture.leftover stream]) := by
          simp [Text.unlines]
        rw [ended, Text.rawLines_unlines (List.forall_mem_append.mpr
          ⟨single, List.forall_mem_singleton.mpr unended⟩), if_neg (by simpa using some)]
      · rfl
    · rw [leftover_pushLine, leftover_setLeftover]

/-- With nothing left over, the lines are those of what has been heard. -/
theorem Reading.lines_eq (reading : Reading capture handed heard)
    (nothing : capture.leftover stream = []) :
    linesOn stream (handed ++ capture.buffer) = (Text.rawLines (heard stream)).map stamped := by
  obtain ⟨rawLines, single, whole, lines⟩ := reading.read stream
  rw [lines, whole, nothing, List.append_nil, Text.rawLines_unlines single]

end Reading

/-! ## The table -/

section Storing

variable {generation : Int}

/-- Lines with numbers of their own are all stored. -/
theorem linesOf_insertLogLines {table : LogTable} {nodeId : String} {batch : List LogLine}
    (ascending : Paging.Ascending LogLine.seq (table.linesOf nodeId generation ++ batch)) :
    (table.insertLogLines nodeId generation batch).linesOf nodeId generation =
      table.linesOf nodeId generation ++ batch := by
  obtain ⟨-, batch_ascending, behind⟩ := List.pairwise_append.mp ascending
  have apart : (LogTable.rowsOf nodeId generation batch).Pairwise
      fun one other => one.key ≠ other.key := by
    refine List.pairwise_map.mpr (batch_ascending.imp fun {one other} less same => ?_)
    have seq : one.seq = other.seq := congrArg (fun key => key.2.2) same
    omega
  have free : ∀ row ∈ LogTable.rowsOf nodeId generation batch, ¬table.Taken row := by
    rintro row member ⟨held, stored, same⟩
    obtain ⟨line, here, rfl⟩ := List.mem_map.mp member
    have node : held.nodeId = nodeId := congrArg (fun key => key.1) same
    have gen : held.generation = generation := congrArg (fun key => key.2.1) same
    have seq : held.line.seq = line.seq := congrArg (fun key => key.2.2) same
    have less := behind held.line
      (LogTable.mem_linesOf.mpr (by rw [← node, ← gen]; exact stored)) line here
    omega
  have all : (LogTable.rowsOf nodeId generation batch).filter
      (fun row => row.isOf nodeId generation) = LogTable.rowsOf nodeId generation batch := by
    refine List.filter_eq_self.mpr fun row member => ?_
    obtain ⟨line, -, rfl⟩ := List.mem_map.mp member
    simp [Row.isOf]
  rw [LogTable.insertLogLines, LogTable.linesOf, (LogTable.foldl_insertOrIgnore apart free).1,
    List.filter_append, List.map_append, all]
  simp [LogTable.linesOf, LogTable.rowsOf, Function.comp_def]

/-- What a capture has read it keeps in its buffer or hands over. -/
structure Hands (read next : Capture) : Prop where
  lines : next.pending ++ next.buffer = read.buffer
  seq : next.seq = read.seq
  leftover : ∀ stream, next.leftover stream = read.leftover stream
  nodeId : next.nodeId = read.nodeId
  generation : next.generation = read.generation

variable {table : LogTable} {nodeId : String} {heard : Stream → List Char}
variable {read next : Capture} {recording : Recording}

theorem hands_self (calm : read.pending = []) : Hands read read :=
  ⟨by rw [calm, List.nil_append], rfl, fun _ => rfl, rfl, rfl⟩

theorem hands_flush (read : Capture) (last : Bool) : Hands read (read.flush last) := by
  have leftover (stream : Stream) : (read.flush last).leftover stream = read.leftover stream := by
    rw [Capture.flush]
    cases stream <;> split <;> rfl
  rw [Capture.flush] at leftover ⊢
  split at leftover
  · rename_i empty
    rw [if_pos empty]
    exact ⟨by cases last <;> rfl, rfl, leftover, rfl, rfl⟩
  · rename_i some
    rw [if_neg some]
    exact ⟨List.append_nil _, rfl, leftover, rfl, rfl⟩

/-- The table holds the lines handed over, and the capture waits for the next message. -/
structure Kept (recording : Recording) (nodeId : String) (generation : Int)
    (heard : Stream → List Char) : Prop where
  node : recording.capture.nodeId = nodeId
  of : recording.capture.generation = generation
  reading : Reading recording.capture (recording.table.linesOf nodeId generation) heard
  unended : ∀ stream, '\n' ∉ recording.capture.leftover stream
  calm : recording.capture.pending = []

theorem kept_begins (table : LogTable) (nodeId : String) :
    Kept (.begins table nodeId) nodeId (table.nextGeneration nodeId) fun _ => [] := by
  have none : (Recording.begins table nodeId).table.linesOf nodeId
      (table.nextGeneration nodeId) = [] := by
    refine List.eq_nil_iff_forall_not_mem.mpr fun line member => ?_
    have stored := (LogTable.mem_deleteUpTo.mp (LogTable.mem_linesOf.mp member)).1
    exact absurd (LogTable.stored_of_mem stored).lt_next (lt_irrefl _)
  refine ⟨rfl, rfl, ?_, ?_, rfl⟩
  · rw [none]
    refine ⟨rfl, rfl, fun stream => ⟨[], ?_, ?_, rfl⟩⟩
    · exact fun rawLine member => absurd member List.not_mem_nil
    · cases stream <;> rfl
  · intro stream
    cases stream <;> exact List.not_mem_nil

theorem leftover_resume (capture : Capture) (phase : Phase) (stream : Stream) :
    (capture.resume phase).leftover stream = capture.leftover stream := by
  cases stream <;> rfl

/-- What is handed over is stored. -/
theorem Reading.store (reading : Reading read (table.linesOf nodeId generation) heard)
    (hands : Hands read next) (node : read.nodeId = nodeId) (of : read.generation = generation)
    (phase : Phase) :
    Reading (Recording.store ⟨table, next⟩ phase).capture
      ((Recording.store ⟨table, next⟩ phase).table.linesOf nodeId generation) heard := by
  have ascending := reading.counted.ascending
  rw [← hands.lines, ← List.append_assoc] at ascending
  have stored := linesOf_insertLogLines (List.pairwise_append.mp ascending).1
  have same : (Recording.store ⟨table, next⟩ phase).table.linesOf nodeId generation =
      table.linesOf nodeId generation ++ next.pending := by
    rw [Recording.store, hands.nodeId, hands.generation, node, of]
    exact stored
  refine reading.congr ?_ hands.seq fun stream => ?_
  · rw [same, ← hands.lines, List.append_assoc]
    rfl
  · rw [← hands.leftover]
    exact leftover_resume next phase stream

theorem pending_resume (capture : Capture) :
    (capture.resume .streaming).pending = [] ∧ (capture.resume .ended).pending = [] := by
  simp only [Capture.resume, Capture.pending]
  cases capture.aborted <;> exact ⟨rfl, rfl⟩

/-- The text of an output that belongs to a stream. -/
def textOf (stream : Stream) (output : LogOutput) : List Char :=
  (output.messageOf stream).elim [] Utf8.fromUtf8Lossy

theorem Kept.receive (kept : Kept recording nodeId generation heard) (output : LogOutput × Bool) :
    Kept (recording.receive output) nodeId generation
      fun stream => heard stream ++ textOf stream output.1 := by
  rw [Recording.receive]
  split
  · rename_i stream message spoken
    have heard_eq : (fun other => heard other ++ textOf other output.1) = fun other =>
        if other = stream then heard other ++ Utf8.fromUtf8Lossy message else heard other := by
      funext other
      rw [textOf, LogOutput.messageOf, spoken]
      by_cases same : other = stream
      · simp [Option.filter, same]
      · simp [Option.filter, same, Ne.symm same]
    rw [heard_eq]
    generalize Utf8.fromUtf8Lossy message = text
    -- what has been read before anything is handed over
    let joined := recording.capture.leftover stream ++ text
    let read := Capture.takeLines stream joined.length
      (recording.capture.setLeftover joined stream)
    have reads : Reads recording.capture read :=
      (reads_setLeftover _ _ _).trans (reads_takeLines _ _ _)
    have reading : Reading read (recording.table.linesOf nodeId generation) _ :=
      (kept.reading.hear text).takeLines joined.length
    have calm : read.pending = [] := by
      rw [Capture.pending, reads.phase]
      exact kept.calm
    have hands : Hands read (recording.capture.item stream text output.2) := by
      rw [Capture.item]
      split
      · exact hands_flush read false
      · exact hands_self calm
    refine ⟨hands.nodeId.trans (reads.nodeId.trans kept.node),
      hands.generation.trans (reads.generation.trans kept.of),
      reading.store hands (reads.nodeId.trans kept.node)
        (reads.generation.trans kept.of) .streaming, fun other => ?_,
      (pending_resume _).1⟩
    obtain ⟨taken, others⟩ :=
      @leftover_takeLines (recording.capture.setLeftover joined stream) stream joined.length
        (by rw [leftover_setLeftover, if_pos rfl])
    have stays : ((Recording.store ⟨recording.table,
        recording.capture.item stream text output.2⟩ .streaming).capture).leftover other =
          read.leftover other := by
      rw [← hands.leftover]
      exact leftover_resume _ _ _
    rw [stays]
    by_cases same : other = stream
    · exact same ▸ taken
    · rw [others other same, leftover_setLeftover, if_neg same]
      exact kept.unended other
  · rename_i silent
    have nothing : (fun other => heard other ++ textOf other output.1) = heard := by
      funext other
      simp [textOf, LogOutput.messageOf, silent]
    rwa [nothing]

theorem flatMap_messages_cons (stream : Stream) (output : LogOutput × Bool)
    (outputs : List (LogOutput × Bool)) :
    (messages stream (output :: outputs)).flatMap Utf8.fromUtf8Lossy =
      textOf stream output.1 ++ (messages stream outputs).flatMap Utf8.fromUtf8Lossy := by
  cases spoken : output.1.messageOf stream <;> simp [messages, textOf, spoken]

theorem Kept.run (outputs : List (LogOutput × Bool))
    (kept : Kept recording nodeId generation heard) :
    Kept (outputs.foldl Recording.receive recording) nodeId generation
      fun stream => heard stream ++ (messages stream outputs).flatMap Utf8.fromUtf8Lossy := by
  induction outputs generalizing recording heard with
  | nil => simpa [messages] using kept
  | cons output outputs ih =>
      simpa only [flatMap_messages_cons, List.append_assoc, List.foldl_cons] using
        ih (kept.receive output)

/-- At the end the lines in the table are those of what has been heard. -/
theorem Kept.finish (kept : Kept recording nodeId generation heard) :
    Counted (recording.finish.table.linesOf nodeId generation) ∧
      ∀ stream, linesOn stream (recording.finish.table.linesOf nodeId generation) =
        (Text.rawLines (heard stream)).map stamped := by
  obtain ⟨one, reading, one_heard, one_left⟩ := kept.reading.pushLeftover (kept.unended .stdout)
  have unended : '\n' ∉ (recording.capture.pushLeftover .stdout).leftover .stderr := by
    rw [one_left, if_neg (by decide)]
    exact kept.unended .stderr
  obtain ⟨both, last, both_heard, both_left⟩ := reading.pushLeftover unended
  have reads : Reads recording.capture
      ((recording.capture.pushLeftover .stdout).pushLeftover .stderr) :=
    (reads_pushLeftover _ _).trans (reads_pushLeftover _ _)
  have stored : Reading recording.finish.capture
      (recording.finish.table.linesOf nodeId generation) both :=
    last.store (hands_flush _ true) (reads.nodeId.trans kept.node)
      (reads.generation.trans kept.of) .ended
  have emptied : recording.finish.capture.buffer = [] := by
    change (recording.capture.close).buffer = []
    rw [Capture.close, Capture.flush]
    split
    · rename_i empty
      exact List.isEmpty_iff.mp empty
    · rfl
  have nothing (stream : Stream) : recording.finish.capture.leftover stream = [] := by
    have same : recording.finish.capture.leftover stream =
        ((recording.capture.pushLeftover .stdout).pushLeftover .stderr).leftover stream := by
      change (recording.capture.close.resume .ended).leftover stream = _
      rw [leftover_resume, Capture.close, (hands_flush _ true).leftover]
    rw [same, both_left, one_left]
    cases stream <;> rfl
  constructor
  · simpa only [emptied, List.append_nil] using stored.counted
  · intro stream
    rw [← one_heard, ← both_heard, ← stored.lines_eq (nothing stream), emptied, List.append_nil]

end Storing

/-! ## What has been captured -/

section Captured

variable (table : LogTable) (nodeId : String) (outputs : List (LogOutput × Bool))

/-- However the streams are cut and interleaved, the lines of each are those of its messages. -/
theorem captured_spec : Counted (captured table nodeId outputs) ∧
    ∀ stream, linesOn stream (captured table nodeId outputs) =
      (Text.rawLines ((messages stream outputs).flatMap Utf8.fromUtf8Lossy)).map stamped := by
  have spec := ((kept_begins table nodeId).run outputs).finish
  have read : captured table nodeId outputs =
      (captureContainerLogs table nodeId outputs).linesOf nodeId (table.nextGeneration nodeId) :=
    (LogTable.history_ascending _ _ _).eq_of_perm spec.1.ascending (LogTable.history_perm _ _ _)
  rw [read]
  exact spec

theorem messages_apart (stream : Stream) :
    messages stream (outputs.filter fun output => (output.1.messageOf stream).isSome) =
      messages stream outputs := by
  rw [messages, List.filterMap_filter]
  refine List.filterMap_congr fun output _ => ?_
  cases output.1.messageOf stream <;> rfl

/-- A line holds every character that is no space. -/
theorem count_stamped {char : Char} (other : char ≠ ' ') (rawLine : List Char) :
    ((stamped rawLine).1 ++ (stamped rawLine).2).count char = rawLine.count char := by
  rw [stamped]
  cases split : Text.splitOnce ' ' rawLine with
  | none => simp
  | some parts =>
      rw [@Text.eq_of_splitOnce rawLine ' ' parts.1 parts.2 split]
      simp [List.count_append, Ne.symm other]

theorem count_flatMap_stamped {char : Char} (other : char ≠ ' ') (rawLines : List (List Char)) :
    ((rawLines.map stamped).flatMap fun line => line.1 ++ line.2).count char =
      rawLines.flatten.count char := by
  induction rawLines with
  | nil => rfl
  | cons rawLine rawLines ih =>
      rw [List.map_cons, List.flatMap_cons, List.count_append, count_stamped other, ih,
        List.flatten_cons, List.count_append]

/-- Texts of the same lines have every character but newlines and spaces equally often. -/
theorem count_of_lines {char : Char} (line : char ≠ '\n') (space : char ≠ ' ')
    {text other : List Char}
    (same : (Text.rawLines text).map stamped = (Text.rawLines other).map stamped) :
    text.count char = other.count char := by
  have counts := congrArg
    (fun lines => (lines.flatMap fun line : List Char × List Char => line.1 ++ line.2).count char)
    same
  simpa only [count_flatMap_stamped space, Text.count_rawLines line] using counts

/-- What is captured does not depend on the cuts exactly if no message goes on with what was begun
in the messages of its stream before it. -/
theorem recorded_iff : Recorded table nodeId outputs ↔
    ∀ stream, Utf8.CutsWhole [] (messages stream outputs) := by
  obtain ⟨counted, lines⟩ := captured_spec table nodeId outputs
  constructor
  · intro recorded stream
    have same := recorded.split stream
    rw [lines] at same
    exact Utf8.count_flatMap_eq_iff.mp (count_of_lines (by decide) (by decide) same)
  · intro whole
    have split (stream : Stream) : linesOn stream (captured table nodeId outputs) =
        (Text.rawLines (Utf8.fromUtf8Lossy (messages stream outputs).flatten)).map stamped := by
      rw [lines, Utf8.flatMap_of_cutsWhole (whole stream)]
    refine ⟨counted, fun stream => ?_, split, fun stream one same => ?_⟩
    · rw [lines, (captured_spec table nodeId _).2, messages_apart]
    · rw [split, (captured_spec table nodeId one).2, same, List.flatMap_singleton]

/-- A character whose bytes come in two messages is stored as two others. -/
theorem character_cut : ¬∀ (table : LogTable) (nodeId : String)
    (outputs : List (LogOutput × Bool)), Recorded table nodeId outputs := by
  intro recorded
  have same := (recorded ⟨[], List.Pairwise.nil⟩ "api"
    [(.stdOut [0x54, 0x20, 0xC3], false), (.stdOut [0xA9, 0x0A], false)]).split .stdout
  revert same
  decide

end Captured

end Logs
end Fghj
