import Fghj.Library.Delimited
import Fghj.Library.Loop
import Fghj.Library.Utf8

/-!
# The lines of a capture session

Recording sets and exchanges are sent as one line each. The bytes come in frames that are cut
anywhere. What is read are the lines that were sent, each as soon as its newline is there.
-/

namespace Fghj
namespace Capture

/-- `b'\n'` -/
def newline : UInt8 := 10

/-- One line of a capture stream, newline included. -/
def ship {α : Type} (toVec : α → List UInt8) (value : α) : List UInt8 := toVec value ++ [newline]

/-- Splits a byte stream into newline-terminated lines. -/
structure Lines where
  buf : List UInt8 := []

namespace Lines

/-- One pass over what is buffered; it takes the line at the front off. -/
def pushPass (state : Lines × List (List UInt8)) :
    Pass (Lines × List (List UInt8)) (Lines × List (List UInt8)) :=
  let (self, lines) := state
  match self.buf.findIdx? (· == newline) with
  | some place =>
      let line := (self.buf.take (place + 1)).dropLast
      .again ({ buf := self.buf.drop (place + 1) }, lines ++ [line])
  | none => .done (self, lines)

/-- The lines that end within the data; without a result if the loop did not end. -/
def push (self : Lines) (data : List UInt8) : Option (Lines × List (List UInt8)) :=
  let buf := self.buf ++ data
  Pass.loop pushPass (buf.length + 1) ({ buf }, [])

/-- The lines returned for each frame in turn. -/
def feed (self : Lines) : List (List UInt8) → Option (Lines × List (List (List UInt8)))
  | [] => some (self, [])
  | frame :: frames => do
      let (next, lines) ← self.push frame
      let (last, returned) ← feed next frames
      return (last, lines :: returned)

end Lines

section Ends

variable {σ μ : Type}

/-- Applies each recording set of the frames that hold data. -/
def readModes (fromSlice : List UInt8 → Option μ) (applyModes : σ → μ → σ) :
    Lines → σ → List (Option (List UInt8)) → Option σ
  | _, store, [] => some store
  | lines, store, none :: frames => readModes fromSlice applyModes lines store frames
  | lines, store, some data :: frames => do
      let (next, found) ← lines.push data
      let apply (store : σ) (line : List UInt8) : σ :=
        match fromSlice line with
        | some modes => applyModes store modes
        | none => store
      readModes fromSlice applyModes next (found.foldl apply store) frames

/-- What the lines of one frame come to; exchanges are handed over up to one that can't be read. -/
def ingestLines (fromSlice : List UInt8 → Except String μ) (ingest : σ → μ → σ) (state : σ) :
    List (List UInt8) → σ × Option String
  | [] => (state, none)
  | line :: lines =>
      match fromSlice line with
      | .ok shipped => ingestLines fromSlice ingest (ingest state shipped) lines
      | .error e => (state, some ("the sidecar shipped an exchange fghjd can't read: " ++ e))

/-- The session: what was handed over, and why it ended. -/
def pull (fromSlice : List UInt8 → Except String μ) (ingest : σ → μ → σ) :
    Lines → σ → List (Except String (Option (List UInt8))) → Option (σ × String)
  | _, state, [] => some (state, "the sidecar ended the capture stream")
  | _, state, .error _ :: _ => some (state, "capture stream broke")
  | lines, state, .ok none :: frames => pull fromSlice ingest lines state frames
  | lines, state, .ok (some data) :: frames => do
      let (next, found) ← lines.push data
      match ingestLines fromSlice ingest state found with
      | (state, some why) => return (state, why)
      | (state, none) => pull fromSlice ingest next state frames

end Ends

/-! ## One frame -/

namespace Lines

variable {self : Lines} {data : List UInt8}

theorem pushPass_done {lines : List (List UInt8)} (bare : newline ∉ self.buf) :
    pushPass (self, lines) = .done (self, lines) := by
  have absent : self.buf.findIdx? (· == newline) = none := by
    rw [List.findIdx?_eq_none_iff]
    intro byte member
    exact beq_false_of_ne fun same => bare (same ▸ member)
  simp only [pushPass, absent]

theorem pushPass_line {line rest : List UInt8} {lines : List (List UInt8)} (bare : newline ∉ line) :
    pushPass (⟨line ++ newline :: rest⟩, lines) = .again (⟨rest⟩, lines ++ [line]) := by
  have absent : line.findIdx? (· == newline) = none := by
    rw [List.findIdx?_eq_none_iff]
    intro byte member
    exact beq_false_of_ne fun same => bare (same ▸ member)
  have found : (line ++ newline :: rest).findIdx? (· == newline) = some line.length := by
    rw [List.findIdx?_append, absent]
    simp [List.findIdx?_cons]
  have front : (line ++ newline :: rest).take (line.length + 1) = line ++ [newline] := by
    simp [List.take_append]
  have back : (line ++ newline :: rest).drop (line.length + 1) = rest := by
    simp [List.drop_append]
  simp only [pushPass, found, front, back, List.dropLast_concat]

theorem loop_pushPass {stream rest : List UInt8} {pieces lines : List (List UInt8)} {fuel : Nat}
    (whole : Delimited newline stream pieces rest) (enough : stream.length < fuel) :
    Pass.loop pushPass fuel (⟨stream⟩, lines) = some (⟨rest⟩, lines ++ pieces) := by
  induction pieces generalizing stream lines fuel with
  | nil =>
      obtain rfl : stream = rest := whole.stream_eq
      obtain ⟨fuel, rfl⟩ := Nat.exists_eq_add_one_of_ne_zero (Nat.ne_zero_of_lt enough)
      rw [Pass.loop_done (pushPass_done whole.rest_bare), List.append_nil]
  | cons piece pieces ih =>
      obtain ⟨bare, later⟩ := List.forall_mem_cons.mp whole.pieces_bare
      have tail : Delimited newline (pieces.flatMap (· ++ [newline]) ++ rest) pieces rest :=
        ⟨rfl, later, whole.rest_bare⟩
      obtain rfl : stream = piece ++ newline :: (pieces.flatMap (· ++ [newline]) ++ rest) := by
        rw [whole.stream_eq]
        simp
      obtain ⟨fuel, rfl⟩ := Nat.exists_eq_add_one_of_ne_zero (Nat.ne_zero_of_lt enough)
      simp only [List.length_append, List.length_cons] at enough
      rw [Pass.loop_again (pushPass_line bare), ih tail (by rw [List.length_append]; omega),
        List.append_assoc, List.singleton_append]

/-- A frame is pushed behind what is buffered; the lines that end there are returned. -/
theorem push_spec (self : Lines) (data : List UInt8) :
    ∃ lines rest, self.push data = some (⟨rest⟩, lines) ∧
      Delimited newline (self.buf ++ data) lines rest := by
  obtain ⟨lines, rest, whole⟩ := Delimited.exists_of_stream newline (self.buf ++ data)
  refine ⟨lines, rest, ?_, whole⟩
  rw [push, loop_pushPass whole (Nat.lt_succ_self _), List.nil_append]

/-! ## A stream of frames -/

/-- However a stream is cut, the lines returned and the buffer at the end take it apart. -/
theorem feed_spec (frames : List (List UInt8)) (bare : newline ∉ self.buf) :
    ∃ returned rest, self.feed frames = some (⟨rest⟩, returned) ∧ returned.length = frames.length ∧
      Delimited newline (self.buf ++ frames.flatten) returned.flatten rest := by
  induction frames generalizing self with
  | nil =>
      refine ⟨[], self.buf, rfl, rfl, ?_⟩
      rw [List.flatten_nil, List.append_nil]
      exact .nil bare
  | cons frame frames ih =>
      obtain ⟨lines, left, pushed, front⟩ := push_spec self frame
      obtain ⟨returned, rest, fed, length, back⟩ := @ih ⟨left⟩ front.rest_bare
      refine ⟨lines :: returned, rest, ?_, by simp [length], ?_⟩
      · simp [feed, pushed, fed]
      · rw [List.flatten_cons, List.flatten_cons, ← List.append_assoc]
        exact front.append back

theorem feed_cons {next : Lines} {returned : List (List (List UInt8))}
    {frames : List (List UInt8)} (fed : self.feed (data :: frames) = some (next, returned)) :
    ∃ lines left later, self.push data = some (left, lines) ∧
      left.feed frames = some (next, later) ∧ returned = lines :: later := by
  obtain ⟨⟨left, lines⟩, pushed, rest⟩ := Option.bind_eq_some_iff.mp fed
  obtain ⟨⟨last, later⟩, found, same⟩ := Option.bind_eq_some_iff.mp rest
  cases same
  exact ⟨lines, left, later, pushed, found, rfl⟩

theorem feed_append {next : Lines} {returned : List (List (List UInt8))}
    {before : List (List UInt8)} (fed : self.feed before = some (next, returned))
    (later : List (List UInt8)) :
    self.feed (before ++ later) =
      (next.feed later).map fun result => (result.1, returned ++ result.2) := by
  induction before generalizing self returned with
  | nil =>
      obtain ⟨rfl, rfl⟩ : self = next ∧ [] = returned := by simpa [feed] using fed
      simp
  | cons frame before ih =>
      obtain ⟨lines, left, returned, pushed, found, rfl⟩ := feed_cons fed
      rw [List.cons_append, feed, pushed, Option.bind_eq_bind, Option.bind_some]
      change (feed left (before ++ later)).bind _ = _
      rw [ih found]
      cases next.feed later <;> rfl

theorem delimited_ship {α : Type} {toVec : α → List UInt8} {values : List α}
    {stream rest : List UInt8} (single : ∀ value ∈ values, newline ∉ toVec value)
    (unended : newline ∉ rest)
    (sent : stream = values.flatMap (ship toVec) ++ rest) :
    Delimited newline stream (values.map toVec) rest where
  stream_eq := by
    rw [sent, List.flatMap_map]
    rfl
  pieces_bare := by simpa using single
  rest_bare := unended

/-- The values sent are the lines returned, in order and each once, however the stream is cut; what
is returned for the frames so far are the values whose newline they hold. -/
theorem feed_ship {α : Type} (toVec : α → List UInt8) {values : List α} {rest : List UInt8}
    {frames : List (List UInt8)} (single : ∀ value ∈ values, newline ∉ toVec value)
    (unended : newline ∉ rest) (cut : frames.flatten = values.flatMap (ship toVec) ++ rest) :
    ∃ returned, feed {} frames = some (⟨rest⟩, returned) ∧ returned.length = frames.length ∧
      returned.flatten = values.map toVec ∧
      ∀ before later, frames = before ++ later →
        ∃ count buf, feed {} before = some (⟨buf⟩, returned.take before.length) ∧
          (returned.take before.length).flatten = (values.take count).map toVec ∧
          before.flatten = (values.take count).flatMap (ship toVec) ++ buf ∧ newline ∉ buf := by
  have sent := delimited_ship single unended cut
  obtain ⟨returned, last, fed, length, whole⟩ := @feed_spec {} frames List.not_mem_nil
  obtain ⟨lines_eq, rfl⟩ := whole.unique sent
  refine ⟨returned, fed, length, lines_eq, ?_⟩
  rintro before later rfl
  obtain ⟨early, buf, fedBefore, lengthBefore, front⟩ := @feed_spec {} before List.not_mem_nil
  -- what is returned for the frames before is returned for all of them
  have early_eq : returned.take before.length = early := by
    rw [feed_append fedBefore later] at fed
    obtain ⟨result, -, same⟩ := Option.map_eq_some_iff.mp fed
    rw [← (Prod.mk.inj same).2, ← lengthBefore, List.take_left]
  have first : early.flatten <+: values.map toVec := by
    rw [List.flatten_append] at sent
    exact sent.prefix_of_append front
  have taken : early.flatten = (values.take early.flatten.length).map toVec := by
    rw [List.map_take]
    exact List.prefix_iff_eq_take.mp first
  rw [early_eq]
  refine ⟨early.flatten.length, buf, fedBefore, taken, ?_, front.rest_bare⟩
  refine front.stream_eq.trans ?_
  conv_lhs => rw [taken, List.flatMap_map]
  rfl

/-- Two recording sets arrive in frames cut inside both lines, one of them empty. -/
theorem feed_ship_modes :
    let toVec (mode : String) := Utf8.encode ("\x7b\"web\":\"" ++ mode ++ "\"\x7d").toList
    let stream := ["text", "all"].flatMap (ship toVec) ++ [123]
    let frames := [stream.take 5, [], (stream.drop 5).take 20, stream.drop 25]
    ∃ returned, feed {} frames = some (⟨[123]⟩, returned) ∧ returned.length = frames.length ∧
      returned.flatten = ["text", "all"].map toVec ∧
      ∀ before later, frames = before ++ later →
        ∃ count buf, feed {} before = some (⟨buf⟩, returned.take before.length) ∧
          (returned.take before.length).flatten = (["text", "all"].take count).map toVec ∧
          before.flatten = (["text", "all"].take count).flatMap (ship toVec) ++ buf ∧
          newline ∉ buf := by
  intro toVec stream frames
  exact feed_ship toVec (by decide) (by decide) (by decide)

end Lines

/-! ## The two ends -/

section Ends

variable {σ α μ : Type} {toVec : α → List UInt8} {values : List α} {rest : List UInt8}

theorem readModes_eq (fromSlice : List UInt8 → Option μ) (applyModes : σ → μ → σ)
    {self next : Lines} {frames : List (Option (List UInt8))} {store : σ}
    {returned : List (List (List UInt8))}
    (fed : self.feed (frames.filterMap id) = some (next, returned)) :
    readModes fromSlice applyModes self store frames =
      some ((returned.flatten.filterMap fromSlice).foldl applyModes store) := by
  induction frames generalizing self store returned with
  | nil =>
      obtain ⟨rfl, rfl⟩ : self = next ∧ [] = returned := by simpa [Lines.feed] using fed
      rfl
  | cons frame frames ih =>
      cases frame with
      | none => exact ih fed
      | some data =>
          obtain ⟨lines, left, returned, pushed, found, rfl⟩ := Lines.feed_cons fed
          rw [readModes, pushed, Option.bind_eq_bind, Option.bind_some]
          change readModes _ _ left _ frames = _
          simp only [ih found, List.flatten_cons, List.filterMap_append, List.foldl_append,
            List.foldl_filterMap]
          rfl

theorem ingestLines_eq {fromSlice : List UInt8 → Except String μ} (ingest : σ → μ → σ)
    {lines : List (List UInt8)} (read : ∀ line ∈ lines, (fromSlice line).isOk) (state : σ) :
    ingestLines fromSlice ingest state lines =
      ((lines.filterMap fun line => (fromSlice line).toOption).foldl ingest state, none) := by
  induction lines generalizing state with
  | nil => rfl
  | cons line lines ih =>
      obtain ⟨here, later⟩ := List.forall_mem_cons.mp read
      cases result : fromSlice line with
      | error e =>
          rw [result] at here
          exact absurd here Bool.false_ne_true
      | ok shipped =>
          rw [ingestLines, result, List.filterMap_cons, result]
          exact ih later (ingest state shipped)

theorem pull_eq {fromSlice : List UInt8 → Except String μ} (ingest : σ → μ → σ)
    {self next : Lines} {frames : List (Option (List UInt8))} {state : σ}
    {returned : List (List (List UInt8))}
    (fed : self.feed (frames.filterMap id) = some (next, returned))
    (read : ∀ line ∈ returned.flatten, (fromSlice line).isOk) :
    pull fromSlice ingest self state (frames.map .ok) =
      some ((returned.flatten.filterMap fun line => (fromSlice line).toOption).foldl ingest state,
        "the sidecar ended the capture stream") := by
  induction frames generalizing self state returned with
  | nil =>
      obtain ⟨rfl, rfl⟩ : self = next ∧ [] = returned := by simpa [Lines.feed] using fed
      rfl
  | cons frame frames ih =>
      cases frame with
      | none => exact ih fed read
      | some data =>
          obtain ⟨lines, left, returned, pushed, found, rfl⟩ := Lines.feed_cons fed
          rw [List.flatten_cons, List.forall_mem_append] at read
          rw [List.map_cons, pull, pushed, Option.bind_eq_bind, Option.bind_some]
          simp only [ingestLines_eq ingest read.1]
          rw [ih found read.2, List.flatten_cons, List.filterMap_append, List.foldl_append]

variable {shown : α → μ} {frames : List (Option (List UInt8))}

/-- The recording sets are applied in the order they were sent, each once. -/
theorem readModes_ship {fromSlice : List UInt8 → Option μ} (applyModes : σ → μ → σ) (store : σ)
    (single : ∀ value ∈ values, newline ∉ toVec value) (unended : newline ∉ rest)
    (read : ∀ value ∈ values, fromSlice (toVec value) = some (shown value))
    (cut : (frames.filterMap id).flatten = values.flatMap (ship toVec) ++ rest) :
    readModes fromSlice applyModes {} store frames =
      some ((values.map shown).foldl applyModes store) := by
  obtain ⟨returned, last, fed, -, whole⟩ :=
    @Lines.feed_spec {} (frames.filterMap id) List.not_mem_nil
  obtain ⟨lines_eq, -⟩ := whole.unique (Lines.delimited_ship single unended cut)
  have parsed : (values.map toVec).filterMap fromSlice = values.map shown := by
    rw [List.filterMap_map, ← List.filterMap_eq_map]
    exact List.filterMap_congr read
  rw [readModes_eq fromSlice applyModes fed, lines_eq, parsed]

/-- The exchanges are handed over in the order they were shipped until the stream ends. -/
theorem pull_ship {fromSlice : List UInt8 → Except String μ} (ingest : σ → μ → σ) (state : σ)
    (single : ∀ value ∈ values, newline ∉ toVec value) (unended : newline ∉ rest)
    (read : ∀ value ∈ values, fromSlice (toVec value) = .ok (shown value))
    (cut : (frames.filterMap id).flatten = values.flatMap (ship toVec) ++ rest) :
    pull fromSlice ingest {} state (frames.map .ok) =
      some ((values.map shown).foldl ingest state, "the sidecar ended the capture stream") := by
  obtain ⟨returned, last, fed, -, whole⟩ :=
    @Lines.feed_spec {} (frames.filterMap id) List.not_mem_nil
  obtain ⟨lines_eq, -⟩ := whole.unique (Lines.delimited_ship single unended cut)
  have readable : ∀ line ∈ returned.flatten, (fromSlice line).isOk := by
    rw [lines_eq, List.forall_mem_map]
    intro value member
    rw [read value member]
    rfl
  have parsed : ((values.map toVec).filterMap fun line => (fromSlice line).toOption) =
      values.map shown := by
    rw [List.filterMap_map, ← List.filterMap_eq_map]
    refine List.filterMap_congr fun value member => ?_
    rw [Function.comp_apply, read value member]
    rfl
  rw [pull_eq ingest fed readable, lines_eq, parsed]

end Ends
end Capture
end Fghj
