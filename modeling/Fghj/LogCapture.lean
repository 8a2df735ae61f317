import Fghj.Library.Execution
import Fghj.Library.Slots
import Fghj.Library.Text
import Fghj.LogTable

/-!
# Capturing the logs of containers

Every start or restart of a node spawns a capture, which begins a generation of the node's logs and
stores the lines of its container batch by batch. The capture before it is aborted, but a database
call it has handed over is carried out all the same. The calls of all captures are carried out in
any order.
-/

namespace Fghj
namespace Logs

/-- Where a capture is between two awaits. -/
inductive Phase where
  | spawned
  | beginning
  | streaming
  | inserting (batch : List LogLine) (last : Bool)
  | ended
  deriving DecidableEq

structure Capture where
  nodeId : String
  phase : Phase := .spawned
  registered : Bool := false
  aborted : Bool := false
  generation : Int := 0
  seq : Int := 0
  buffer : List LogLine := []
  leftoverOut : List Char := []
  leftoverErr : List Char := []
  deriving DecidableEq

namespace Capture

def leftover (capture : Capture) : Stream → List Char
  | .stdout => capture.leftoverOut
  | .stderr => capture.leftoverErr

def setLeftover (capture : Capture) (text : List Char) : Stream → Capture
  | .stdout => { capture with leftoverOut := text }
  | .stderr => { capture with leftoverErr := text }

/-- Numbers a line and puts it into the buffer. -/
def pushLine (capture : Capture) (stream : Stream) (rawLine : List Char) : Capture :=
  let (ts, line) := (Text.splitOnce ' ' rawLine).getD ([], rawLine)
  { capture with
    buffer := capture.buffer ++ [⟨capture.seq, stream, ts, line⟩]
    seq := capture.seq + 1 }

/-- Takes the whole lines off what is left over of a stream, at most `fuel` of them. -/
def takeLines (stream : Stream) : Nat → Capture → Capture
  | 0, capture => capture
  | fuel + 1, capture =>
      match Text.splitOnce '\n' (capture.leftover stream) with
      | none => capture
      | some (rawLine, rest) =>
          takeLines stream fuel ((capture.setLeftover rest stream).pushLine stream rawLine)

/-- Hands the buffer over to be stored, unless it is empty. -/
def flush (capture : Capture) (last : Bool) : Capture :=
  if capture.buffer.isEmpty then
    { capture with phase := if last then .ended else .streaming }
  else
    { capture with buffer := [], phase := .inserting capture.buffer last }

/-- A piece of a stream arrives, half a second after the last flush or sooner. -/
def item (capture : Capture) (stream : Stream) (message : List Char) (elapsed : Bool) : Capture :=
  let text := capture.leftover stream ++ message
  let read := takeLines stream text.length (capture.setLeftover text stream)
  if 200 ≤ read.buffer.length || elapsed then read.flush false else read

/-- What is left over of a stream becomes its last line. -/
def pushLeftover (capture : Capture) (stream : Stream) : Capture :=
  if (capture.leftover stream).isEmpty then capture
  else (capture.setLeftover [] stream).pushLine stream (capture.leftover stream)

/-- The stream of the container ends. -/
def close (capture : Capture) : Capture :=
  ((capture.pushLeftover .stdout).pushLeftover .stderr).flush true

/-- Goes on after an await, unless aborted. -/
def resume (capture : Capture) (phase : Phase) : Capture :=
  { capture with phase := if capture.aborted then .ended else phase }

/-- The lines handed over and not stored yet. -/
def pending (capture : Capture) : List LogLine :=
  match capture.phase with
  | .inserting batch _ => batch
  | _ => []

/-- The capture reads its container's stream. -/
def running (capture : Capture) : Bool := capture.phase == .streaming && !capture.aborted

/-- Lines of the capture may still be stored. -/
def mayInsert (capture : Capture) : Bool :=
  match capture.phase with
  | .inserting _ _ => true
  | _ => capture.running

/-- The generation of the capture is settled. -/
def begun (capture : Capture) : Bool := capture.phase != .spawned && capture.phase != .beginning

end Capture

/-- The captures of a workspace and the table they write, and what the database calls have done: the
generations that have begun, and the rows each capture inserted or had ignored. -/
structure System where
  table : LogTable
  captures : List Capture
  logCaptures : List (String × Nat)
  begun : List (String × Int)
  inserted : List (Nat × Row)
  ignored : List (Nat × Row)

/-- A workspace opened on a table, whose rows are of generations that have begun before. -/
def start (table : LogTable) : System where
  table := table
  captures := []
  logCaptures := []
  begun := table.rows.map fun row => (row.nodeId, row.generation)
  inserted := []
  ignored := []

inductive Event where
  /-- A start of a node spawns a capture. -/
  | spawn (nodeId : String)
  /-- The start puts the capture in the place of the one before and aborts that one. -/
  | register (number : Nat)
  /-- The capture asks for a generation. -/
  | poll (number : Nat)
  /-- The database carries out the call a capture has handed over, or fails to. -/
  | settle (number : Nat) (ok : Bool)
  | item (number : Nat) (stream : Stream) (message : List Char) (elapsed : Bool)
  | close (number : Nat)

namespace System

/-- Changes the capture of a number, if it is as required. -/
def update (system : System) (number : Nat) (allowed : Capture → Bool)
    (change : Capture → Capture) : System :=
  match system.captures[number]? with
  | some capture =>
      if allowed capture then
        { system with captures := system.captures.set number (change capture) }
      else system
  | none => system

/-- Aborts the capture of a number. -/
def abort (system : System) (number : Nat) : System :=
  system.update number (fun _ => true) fun capture => { capture with aborted := true }

/-- Keeps the handle of a capture under its node, and aborts the one that was kept there. -/
def register (system : System) (number : Nat) : System :=
  match system.captures[number]? with
  | some capture =>
      if capture.registered then system
      else
        let kept := system.update number (fun _ => true) fun capture =>
          { capture with registered := true }
        let next := { kept with
          logCaptures := (capture.nodeId, number) ::
            kept.logCaptures.filter fun held => held.1 != capture.nodeId }
        match system.logCaptures.lookup capture.nodeId with
        | some old => next.abort old
        | none => next
  | none => system

def settleBegin (system : System) (number : Nat) (capture : Capture) : System :=
  let (table, generation) := system.table.beginLogGeneration capture.nodeId
  { system with
    table := table
    captures := system.captures.set number
      ({ capture with generation := generation }.resume .streaming)
    begun := system.begun ++ [(capture.nodeId, generation)] }

def settleInsert (system : System) (number : Nat) (capture : Capture) (batch : List LogLine)
    (last : Bool) : System :=
  let rows := LogTable.rowsOf capture.nodeId capture.generation batch
  { system with
    table := system.table.insertLogLines capture.nodeId capture.generation batch
    captures := system.captures.set number (capture.resume (if last then .ended else .streaming))
    inserted := system.inserted ++ rows.map fun row => (number, row)
    ignored := system.ignored ++ (system.table.ignored rows).map fun row => (number, row) }

/-- The database carries out the call of a capture, or fails to and changes nothing. -/
def settle (system : System) (number : Nat) (ok : Bool) : System :=
  match system.captures[number]? with
  | some capture =>
      match capture.phase, ok with
      | .beginning, true => system.settleBegin number capture
      | .beginning, false =>
          { system with captures := system.captures.set number { capture with phase := .ended } }
      | .inserting batch last, true => system.settleInsert number capture batch last
      | .inserting _ last, false =>
          { system with
            captures := system.captures.set number
              (capture.resume (if last then .ended else .streaming)) }
      | _, _ => system
  | none => system

/-- One event of the workspace. -/
def step (system : System) : Event → System
  | .spawn nodeId => { system with captures := system.captures ++ [{ nodeId }] }
  | .register number => system.register number
  | .poll number =>
      system.update number (fun capture => capture.phase == .spawned && !capture.aborted)
        fun capture => { capture with phase := .beginning }
  | .settle number ok => system.settle number ok
  | .item number stream message elapsed =>
      system.update number Capture.running fun capture => capture.item stream message elapsed
  | .close number => system.update number Capture.running Capture.close

/-- Two later generations of the node have begun. -/
def Superseded (system : System) (nodeId : String) (generation : Int) : Prop :=
  ∃ one ∈ system.begun, ∃ other ∈ system.begun, one.1 = nodeId ∧ other.1 = nodeId ∧
    generation < one.2 ∧ one.2 < other.2

instance (system : System) (nodeId : String) (generation : Int) :
    Decidable (system.Superseded nodeId generation) :=
  inferInstanceAs (Decidable (∃ one ∈ system.begun, ∃ other ∈ system.begun, _))

/-- A generation begins only when every capture of the node that may still insert has a line stored,
of its own generation or of a later one. -/
def beginsApart (system : System) : Event → Bool
  | .settle number true =>
      (system.captures[number]?).all fun capture =>
        capture.phase != .beginning ||
          system.captures.all fun other =>
            other.nodeId != capture.nodeId || !other.mayInsert ||
              decide (other.generation < system.table.nextGeneration capture.nodeId)
  | _ => true

end System

/-! ## What a capture does between two database calls -/

section Numbering

/-- Lines handed over before and lines of the buffer are numbered one after the other, up to the
number of the next line. -/
def Numbered (handed buffer : List LogLine) (seq : Int) : Prop :=
  Paging.Ascending LogLine.seq (handed ++ buffer) ∧ ∀ line ∈ handed ++ buffer, line.seq < seq

theorem Numbered.push {handed buffer : List LogLine} {seq : Int}
    (numbered : Numbered handed buffer seq) (line : LogLine) (next : line.seq = seq) :
    Numbered handed (buffer ++ [line]) (seq + 1) := by
  obtain ⟨ascending, below⟩ := numbered
  constructor
  · rw [← List.append_assoc]
    refine List.pairwise_append.mpr ⟨ascending, List.pairwise_singleton _ _, ?_⟩
    intro before member last here
    rw [List.mem_singleton.mp here, next]
    exact below before member
  · intro before member
    rw [← List.append_assoc, List.mem_append, List.mem_singleton] at member
    rcases member with earlier | rfl
    · have := below before earlier
      omega
    · omega

/-- Reading changes the buffer of a capture, and keeps it numbered. -/
structure Reads (capture read : Capture) : Prop where
  nodeId : read.nodeId = capture.nodeId
  generation : read.generation = capture.generation
  phase : read.phase = capture.phase
  numbered : ∀ handed, Numbered handed capture.buffer capture.seq →
    Numbered handed read.buffer read.seq

variable {capture read last : Capture}

theorem Reads.refl (capture : Capture) : Reads capture capture :=
  ⟨rfl, rfl, rfl, fun _ numbered => numbered⟩

theorem Reads.trans (one : Reads capture read) (other : Reads read last) : Reads capture last where
  nodeId := other.nodeId.trans one.nodeId
  generation := other.generation.trans one.generation
  phase := other.phase.trans one.phase
  numbered handed numbered := other.numbered handed (one.numbered handed numbered)

theorem reads_setLeftover (capture : Capture) (text : List Char) (stream : Stream) :
    Reads capture (capture.setLeftover text stream) := by
  cases stream <;> exact ⟨rfl, rfl, rfl, fun _ numbered => numbered⟩

theorem reads_pushLine (capture : Capture) (stream : Stream) (rawLine : List Char) :
    Reads capture (capture.pushLine stream rawLine) :=
  ⟨rfl, rfl, rfl, fun _ numbered => numbered.push _ rfl⟩

theorem reads_takeLines (stream : Stream) (fuel : Nat) (capture : Capture) :
    Reads capture (Capture.takeLines stream fuel capture) := by
  induction fuel generalizing capture with
  | zero => exact Reads.refl capture
  | succ fuel ih =>
      rw [Capture.takeLines]
      split
      · exact Reads.refl capture
      · exact ((reads_setLeftover _ _ _).trans (reads_pushLine _ _ _)).trans (ih _)

theorem reads_pushLeftover (capture : Capture) (stream : Stream) :
    Reads capture (capture.pushLeftover stream) := by
  rw [Capture.pushLeftover]
  split
  · exact Reads.refl capture
  · exact (reads_setLeftover _ _ _).trans (reads_pushLine _ _ _)

/-- What a capture may become without a database call. -/
structure Advances (capture next : Capture) : Prop where
  nodeId : next.nodeId = capture.nodeId
  generation : next.generation = capture.generation
  mayInsert : next.mayInsert → capture.mayInsert
  begun : capture.begun → next.begun
  numbered : ∀ stored, Numbered (stored ++ capture.pending) capture.buffer capture.seq →
    Numbered (stored ++ next.pending) next.buffer next.seq

theorem Advances.refl (capture : Capture) : Advances capture capture :=
  ⟨rfl, rfl, id, id, fun _ numbered => numbered⟩

theorem Advances.trans (one : Advances capture read) (other : Advances read last) :
    Advances capture last where
  nodeId := other.nodeId.trans one.nodeId
  generation := other.generation.trans one.generation
  mayInsert may := one.mayInsert (other.mayInsert may)
  begun has := other.begun (one.begun has)
  numbered stored numbered := other.numbered stored (one.numbered stored numbered)

theorem mayInsert_of_running (running : capture.running) : capture.mayInsert := by
  rw [Capture.mayInsert]
  split
  · rfl
  · exact running

theorem phase_of_running (running : capture.running) : capture.phase = .streaming := by
  rw [Capture.running, Bool.and_eq_true, beq_iff_eq] at running
  exact running.1

/-- What a capture reads it may hand over at once. -/
theorem advances_flush (running : capture.running) (reads : Reads capture read) (final : Bool) :
    Advances capture (read.flush final) := by
  have streaming := phase_of_running running
  have none_pending : capture.pending = [] := by rw [Capture.pending, streaming]
  have frame : (read.flush final).nodeId = read.nodeId ∧
      (read.flush final).generation = read.generation ∧ (read.flush final).begun ∧
      (read.flush final).seq = read.seq ∧
      (read.flush final).pending ++ (read.flush final).buffer = read.buffer := by
    rw [Capture.flush]
    split
    · rename_i empty
      cases final <;> simp [Capture.begun, Capture.pending, List.isEmpty_iff.mp empty]
    · simp [Capture.begun, Capture.pending]
  obtain ⟨node, generation, begun, seq, waiting⟩ := frame
  refine ⟨node.trans reads.nodeId, generation.trans reads.generation,
    fun _ => mayInsert_of_running running, fun _ => begun, fun stored numbered => ?_⟩
  rw [none_pending, List.append_nil] at numbered
  have read_numbered := reads.numbered stored numbered
  rw [Numbered, seq, List.append_assoc, waiting]
  exact read_numbered

theorem advances_of_reads (running : capture.running) (reads : Reads capture read) :
    Advances capture read := by
  have streaming := phase_of_running running
  refine ⟨reads.nodeId, reads.generation, fun _ => mayInsert_of_running running, fun _ => ?_,
    fun stored numbered => ?_⟩
  · simp [Capture.begun, reads.phase, streaming]
  · rw [Capture.pending, reads.phase]
    exact reads.numbered _ numbered

theorem advances_item (running : capture.running) (stream : Stream) (message : List Char)
    (elapsed : Bool) : Advances capture (capture.item stream message elapsed) := by
  have reads := (reads_setLeftover capture (capture.leftover stream ++ message) stream).trans
    (reads_takeLines stream (capture.leftover stream ++ message).length _)
  rw [Capture.item]
  split
  · exact advances_flush running reads false
  · exact advances_of_reads running reads

theorem advances_close (running : capture.running) : Advances capture capture.close :=
  advances_flush running ((reads_pushLeftover _ _).trans (reads_pushLeftover _ _)) true

theorem Numbered.drop_pending {stored pending buffer : List LogLine} {seq : Int}
    (numbered : Numbered (stored ++ pending) buffer seq) : Numbered stored buffer seq := by
  have sublist : (stored ++ buffer).Sublist (stored ++ pending ++ buffer) :=
    (List.sublist_append_left stored pending).append_right buffer
  exact ⟨numbered.1.sublist sublist, fun line member => numbered.2 line (sublist.subset member)⟩

/-- A capture whose call is over goes on, or ends. -/
theorem advances_after (inserting : capture.mayInsert) {phase : Phase}
    (calm : phase = .ended ∨ phase = .streaming) : Advances capture { capture with phase } := by
  refine ⟨rfl, rfl, fun _ => inserting, fun _ => ?_, fun stored numbered => ?_⟩
  · rcases calm with rfl | rfl <;> rfl
  · have nothing : ({ capture with phase } : Capture).pending = [] := by
      rcases calm with rfl | rfl <;> rfl
    rw [nothing, List.append_nil]
    exact numbered.drop_pending

end Numbering

/-! ## What one event does -/

section Steps

variable {system next : System} {number : Nat} {capture : Capture}

/-- The captures of the system go on by themselves: nothing is stored, and what is new has only been
spawned. -/
structure Quiet (system next : System) : Prop where
  table : next.table = system.table
  begun : next.begun = system.begun
  inserted : next.inserted = system.inserted
  ignored : next.ignored = system.ignored
  captures : ∀ (number : Nat) (after : Capture), next.captures[number]? = some after →
    (∃ before, system.captures[number]? = some before ∧ Advances before after) ∨
      system.captures[number]? = none ∧ ∃ nodeId, after = { nodeId }
  stay : ∀ (number : Nat) (before : Capture), system.captures[number]? = some before →
    ∃ after, next.captures[number]? = some after

theorem Quiet.refl (system : System) : Quiet system system where
  table := rfl
  begun := rfl
  inserted := rfl
  ignored := rfl
  captures _ after found := .inl ⟨after, found, Advances.refl after⟩
  stay _ before found := ⟨before, found⟩

theorem quiet_set (found : system.captures[number]? = some capture) {changed : Capture}
    (advances : Advances capture changed) (logCaptures : List (String × Nat)) :
    Quiet system
      { system with captures := system.captures.set number changed, logCaptures } where
  table := rfl
  begun := rfl
  inserted := rfl
  ignored := rfl
  captures other after lookup := by
    rcases Slots.getElem?_set_cases lookup with ⟨rfl, rfl⟩ | ⟨-, same⟩
    · exact .inl ⟨capture, found, advances⟩
    · exact .inl ⟨after, same, Advances.refl after⟩
  stay other before lookup := by
    have bound := (List.getElem?_eq_some_iff.mp lookup).1
    exact ⟨_, List.getElem?_eq_getElem (by simpa using bound)⟩

theorem quiet_update {allowed : Capture → Bool} {change : Capture → Capture}
    (advances : ∀ capture, allowed capture → Advances capture (change capture)) :
    Quiet system (system.update number allowed change) := by
  rw [System.update]
  split
  · rename_i capture found
    split
    · rename_i fits
      exact quiet_set found (advances capture fits) system.logCaptures
    · exact Quiet.refl system
  · exact Quiet.refl system

theorem Quiet.trans {middle : System} (one : Quiet system middle) (other : Quiet middle next)
    (settled : ∀ number : Nat, system.captures[number]? = none → middle.captures[number]? = none) :
    Quiet system next where
  table := other.table.trans one.table
  begun := other.begun.trans one.begun
  inserted := other.inserted.trans one.inserted
  ignored := other.ignored.trans one.ignored
  captures number after found := by
    rcases other.captures number after found with ⟨between, here, later⟩ | ⟨absent, fresh⟩
    · rcases one.captures number between here with ⟨before, there, earlier⟩ | ⟨missing, -⟩
      · exact .inl ⟨before, there, earlier.trans later⟩
      · rw [settled number missing] at here
        cases here
    · refine .inr ⟨?_, fresh⟩
      cases there : system.captures[number]? with
      | none => rfl
      | some before =>
          obtain ⟨between, here⟩ := one.stay number before there
          rw [absent] at here
          cases here
  stay number before found := by
    obtain ⟨between, here⟩ := one.stay number before found
    exact other.stay number between here

theorem advances_registered (capture : Capture) :
    Advances capture { capture with registered := true } :=
  ⟨rfl, rfl, id, id, fun _ numbered => numbered⟩

theorem advances_aborted (capture : Capture) :
    Advances capture { capture with aborted := true } := by
  refine ⟨rfl, rfl, fun may => ?_, id, fun _ numbered => numbered⟩
  obtain ⟨nodeId, phase, registered, aborted, generation, seq, buffer, out, err⟩ := capture
  cases phase <;> simp_all [Capture.mayInsert, Capture.running]

theorem quiet_register (system : System) (number : Nat) :
    Quiet system (system.register number) := by
  rw [System.register]
  split
  · rename_i capture found
    split
    · exact Quiet.refl system
    · have kept : system.update number (fun _ => true) (fun capture =>
          { capture with registered := true }) =
          { system with
            captures := system.captures.set number { capture with registered := true } } := by
        simp [System.update, found]
      rw [kept]
      have registered := quiet_set found (advances_registered capture)
        ((capture.nodeId, number) ::
          system.logCaptures.filter fun held => held.1 != capture.nodeId)
      dsimp only
      split
      · refine registered.trans (quiet_update fun capture _ => advances_aborted capture) ?_
        intro other absent
        simpa using absent
      · exact registered
  · exact Quiet.refl system

/-- The database begins the generation of a capture. -/
structure Begins (system next : System) (number : Nat) (capture : Capture) : Prop where
  found : system.captures[number]? = some capture
  beginning : capture.phase = .beginning
  next_eq : next = system.settleBegin number capture

/-- The database stores a batch of a capture. -/
structure Inserts (system next : System) (number : Nat) (capture : Capture)
    (batch : List LogLine) (last : Bool) : Prop where
  found : system.captures[number]? = some capture
  inserting : capture.phase = .inserting batch last
  next_eq : next = system.settleInsert number capture batch last

theorem mayInsert_of_inserting {batch : List LogLine} {last : Bool}
    (inserting : capture.phase = .inserting batch last) : capture.mayInsert := by
  rw [Capture.mayInsert, inserting]

theorem advances_resume (inserting : capture.mayInsert) (last : Bool) :
    Advances capture (capture.resume (if last then .ended else .streaming)) :=
  advances_after inserting (by cases capture.aborted <;> cases last <;> simp)

/-- Every event lets captures go on by themselves, begins a generation or stores a batch. -/
theorem step_cases (system : System) (event : Event) :
    Quiet system (system.step event) ∨
      (∃ number capture, event = .settle number true ∧
        Begins system (system.step event) number capture) ∨
      ∃ number capture batch last,
        Inserts system (system.step event) number capture batch last := by
  cases event with
  | spawn nodeId =>
      refine .inl ⟨rfl, rfl, rfl, rfl, fun number after found => ?_, fun number before found => ?_⟩
      · change (system.captures ++ [_])[number]? = _ at found
        rcases Nat.lt_or_ge number system.captures.length with old | new
        · rw [List.getElem?_append_left old] at found
          exact .inl ⟨after, found, Advances.refl after⟩
        · rw [List.getElem?_append_right new] at found
          exact .inr ⟨List.getElem?_eq_none new, nodeId,
            List.mem_singleton.mp (List.mem_of_getElem? found)⟩
      · have old := (List.getElem?_eq_some_iff.mp found).1
        exact ⟨before, by rw [← found]; exact List.getElem?_append_left old⟩
  | register number => exact .inl (quiet_register system number)
  | poll number =>
      refine .inl (quiet_update fun capture allowed => ?_)
      rw [Bool.and_eq_true, beq_iff_eq] at allowed
      refine ⟨rfl, rfl, fun may => ?_, fun begun => ?_, fun stored numbered => ?_⟩
      · simp [Capture.mayInsert, Capture.running] at may
      · simp [Capture.begun, allowed.1] at begun
      · simpa [Capture.pending, allowed.1] using numbered
  | settle number ok =>
      rw [System.step, System.settle]
      split
      · rename_i capture found
        split
        · rename_i beginning
          exact .inr (.inl ⟨number, capture, rfl, found, beginning, rfl⟩)
        · rename_i beginning
          have advances : Advances capture { capture with phase := .ended } := by
            refine ⟨rfl, rfl, fun may => ?_, fun _ => rfl, fun stored numbered => ?_⟩
            · simp [Capture.mayInsert, Capture.running] at may
            · simpa [Capture.pending, beginning] using numbered
          exact .inl (quiet_set found advances system.logCaptures)
        · rename_i batch last inserting
          exact .inr (.inr ⟨number, capture, batch, last, found, inserting, rfl⟩)
        · rename_i last inserting
          exact .inl (quiet_set found
            (advances_resume (mayInsert_of_inserting inserting) last) system.logCaptures)
        · exact .inl (Quiet.refl system)
      · exact .inl (Quiet.refl system)
  | item number stream message elapsed =>
      exact .inl (quiet_update fun capture running => advances_item running stream message elapsed)
  | close number => exact .inl (quiet_update fun capture running => advances_close running)

end Steps

end Logs
end Fghj
