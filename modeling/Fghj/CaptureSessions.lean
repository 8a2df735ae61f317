import Fghj.Library.Execution
import Fghj.Library.OrderedMap
import Fghj.Library.Slots
import Fghj.Traffic

/-!
# Capture sessions of a sidecar

fghjd streams recording sets to a sidecar over one long request, line by line. Every request is a
session with a task of its own, and all of them apply sets to one store. `apply_modes` writes node
after node, so the tasks of two sessions may get in each other's way.
-/

namespace Fghj

open Std (ExtTreeMap)

namespace CaptureSessions

open Traffic (BodyMode)

abbrev Modes := OrderedMap String BodyMode

/-- A call of `apply_modes` under way. -/
structure Applying where
  modes : Modes
  /-- The listed nodes whose mode is not set yet, in whatever order the map has them. -/
  todo : List String
  /-- The other nodes that were not stopped yet, once they are listed. -/
  others : Option (List String) := none
  /-- Whether the session's body has ended and its task is stopping the recording. -/
  stopping : Bool := false

/-- What a session's task is doing. -/
inductive Phase where
  | reading
  | applying (call : Applying)
  | closed

/-- The sidecar. A session's number is its place in the list plus one, so the counter is the length
of the list. -/
structure World where
  sessions : List Phase := []
  /-- The store's logs by their node, each with its mode. -/
  logs : OrderedMap String (Option BodyMode) := ∅
  /-- The newest session that has sent a set since none was open, with the last set it sent. The
  code does not keep it. -/
  asked : Option (Nat × Modes) := none

inductive Event where
  | openSession
  /-- A line with a set arrives. -/
  | line (session : Nat) (modes : Modes)
  /-- The body is over, and the task looks at the counter. -/
  | stop (session : Nat)
  | write (session : Nat) (node : String)
  | list (session : Nat)
  | silence (session : Nat) (node : String)
  | finish (session : Nat)
  /-- A node's log is made, by a proxy or by `apply_modes`. -/
  | log (node : String)

def Phase.isOpen : Phase → Bool
  | .reading | .applying _ => true
  | .closed => false

def Phase.isApplying : Phase → Bool
  | .applying _ => true
  | .reading | .closed => false

def Phase.isStopping : Phase → Bool
  | .applying call => call.stopping
  | .reading | .closed => false

namespace World

/-- What a node records, if anything. -/
def mode (world : World) (node : String) : Option BodyMode := (world.logs[node]?).join

/-- The recording set asked for. -/
def wanted (world : World) : Modes := (world.asked.map (·.2)).getD ∅

def setSession (world : World) (session : Nat) (phase : Phase) : World :=
  { world with sessions := world.sessions.set session phase }

def setMode (world : World) (node : String) (mode : Option BodyMode) : World :=
  { world with logs := world.logs.insert node mode }

/-- The set a session sends counts unless a newer session has sent one. -/
def ask (world : World) (session : Nat) (modes : Modes) : World :=
  match world.asked with
  | some (newest, _) =>
      if session < newest then world else { world with asked := some (session, modes) }
  | none => { world with asked := some (session, modes) }

/-- Once no session is open, nothing is asked for. -/
def settle (world : World) : World :=
  if world.sessions.any (·.isOpen) then world else { world with asked := none }

/-- The session's task is through. -/
def close (world : World) (session : Nat) : World := (world.setSession session .closed).settle

def isNewest (world : World) (session : Nat) : Bool := session + 1 = world.sessions.length

def step (world : World) : Event → World
  | .openSession => { world with sessions := world.sessions ++ [.reading] }
  | .line session modes =>
      match world.sessions[session]? with
      | some .reading =>
          (world.setSession session (.applying { modes, todo := modes.keys })).ask session modes
      | _ => world
  | .stop session =>
      match world.sessions[session]? with
      | some .reading =>
          if world.isNewest session then
            world.setSession session (.applying { modes := ∅, todo := [], stopping := true })
          else world.close session
      | _ => world
  | .write session node =>
      match world.sessions[session]? with
      | some (.applying call) =>
          match call.modes[node]? with
          | some mode =>
              if call.others.isNone && node ∈ call.todo then
                (world.setSession session
                  (.applying { call with todo := call.todo.erase node })).setMode node (some mode)
              else world
          | none => world
      | _ => world
  | .list session =>
      match world.sessions[session]? with
      | some (.applying call) =>
          if call.others.isNone && call.todo.isEmpty then
            world.setSession session (.applying
              { call with others := some (world.logs.keys.filter (¬call.modes.contains ·)) })
          else world
      | _ => world
  | .silence session node =>
      match world.sessions[session]? with
      | some (.applying call) =>
          match call.others with
          | some others =>
              if node ∈ others then
                (world.setSession session (.applying
                  { call with others := some (others.erase node) })).setMode node none
              else world
          | none => world
      | _ => world
  | .finish session =>
      match world.sessions[session]? with
      | some (.applying call) =>
          if call.others = some [] then
            if call.stopping then world.close session else world.setSession session .reading
          else world
      | _ => world
  | .log node =>
      if world.logs.contains node then world else world.setMode node none

def after (events : List Event) : World := Execution.run step {} events

/-! ## What is kept while sessions take turns -/

/-- No session is in the middle of applying a set. -/
def AtRest (world : World) : Prop :=
  ∀ (session : Nat) (call : Applying), world.sessions[session]? ≠ some (.applying call)

/-- What a call of `apply_modes` has brought about so far. -/
structure Progress (records : String → Option BodyMode) (call : Applying) : Prop where
  written : ∀ node mode, call.modes[node]? = some mode → node ∈ call.todo ∨ records node = some mode
  done : ∀ others, call.others = some others → call.todo = []
  apart : ∀ others, call.others = some others → ∀ node ∈ others, call.modes[node]? = none
  silenced : ∀ others, call.others = some others → ∀ node, call.modes[node]? = none →
    node ∈ others ∨ records node = none

/-- Every session but one is closed. -/
def OthersClosed (world : World) (session : Nat) : Prop :=
  ∀ (other : Nat) (phase : Phase), other ≠ session → world.sessions[other]? = some phase →
    phase.isOpen = false

structure Invariant (world : World) : Prop where
  one : ∀ (session other : Nat) (call rival : Applying),
    world.sessions[session]? = some (.applying call) →
    world.sessions[other]? = some (.applying rival) → session = other
  rest : world.AtRest → ∀ node, world.mode node = world.wanted[node]?
  progress : ∀ (session : Nat) (call : Applying),
    world.sessions[session]? = some (.applying call) → Progress world.mode call
  sends : ∀ (session : Nat) (call : Applying), world.sessions[session]? = some (.applying call) →
    call.stopping = false → call.modes = world.wanted
  stops : ∀ (session : Nat) (call : Applying), world.sessions[session]? = some (.applying call) →
    call.stopping = true → call.modes = ∅ ∧ (world.wanted.isEmpty ∨ world.OthersClosed session)
  none : world.sessions.any (·.isOpen) = false → world.asked = none

/-- What a session may not do: open while a session that found itself newest stops a recording, send
a set or stop the recording while another is applying a set, send a set once a newer session has
sent one, and end so that what is asked for and what is recorded fall apart. -/
def Timely (world : World) : Event → Prop
  | .openSession => world.sessions.any (·.isStopping) → world.wanted.isEmpty
  | .line session _ => world.sessions.any (·.isApplying) = false ∧
      ∀ newest ∈ world.asked, newest.1 ≤ session
  | .stop session =>
      if world.isNewest session then
        world.sessions.any (·.isApplying) = false ∧
          (world.wanted.isEmpty ∨ (world.sessions.set session .closed).any (·.isOpen) = false)
      else world.wanted.isEmpty ∨ (world.sessions.set session .closed).any (·.isOpen)
  | _ => True

instance (world : World) (event : Event) : Decidable (world.Timely event) := by
  cases event <;> unfold Timely <;> infer_instance

variable {world : World}

theorem atRest_of_any (quiet : world.sessions.any (·.isApplying) = false) : world.AtRest := by
  intro session call found
  have := List.any_eq_false.mp quiet _ (List.mem_of_getElem? found)
  simp [Phase.isApplying] at this

theorem mode_setMode (world : World) (node other : String) (mode : Option BodyMode) :
    (world.setMode node mode).mode other = if node = other then mode else world.mode other := by
  by_cases same : node = other
  · simp [World.mode, setMode, same]
  · simp [World.mode, setMode, same]

variable {session : Nat}

theorem othersClosed_of_any (closed : (world.sessions.set session .closed).any (·.isOpen) = false) :
    world.OthersClosed session := by
  intro other phase different found
  have there : (world.sessions.set session .closed)[other]? = some phase :=
    (List.getElem?_set_ne (Ne.symm different)).trans found
  simpa using List.any_eq_false.mp closed phase (List.mem_of_getElem? there)

theorem OthersClosed.of_set (closed : world.OthersClosed session) {next : World} {phase : Phase}
    (sessions : next.sessions = world.sessions.set session phase) : next.OthersClosed session := by
  intro other there different found
  rw [sessions] at found
  rcases Slots.getElem?_set_cases found with ⟨same, -⟩ | ⟨-, before⟩
  · exact absurd same.symm different
  · exact closed other there different before

theorem any_of_getElem? {test : Phase → Bool} {phase : Phase}
    (found : world.sessions[session]? = some phase) (passes : test phase) :
    world.sessions.any test := List.any_eq_true.mpr ⟨phase, List.mem_of_getElem? found, passes⟩

namespace Invariant

theorem init : Invariant {} where
  one _ _ _ _ found := by simp at found
  rest _ _ := by simp [World.mode, wanted]
  progress _ _ found := by simp at found
  sends _ _ found := by simp at found
  stops _ _ found := by simp at found
  none _ := rfl

theorem openSession (invariant : Invariant world) (timely : world.Timely .openSession) :
    Invariant (world.step .openSession) := by
  have old : ∀ {session : Nat} {call : Applying},
      (world.step .openSession).sessions[session]? = some (.applying call) →
      world.sessions[session]? = some (.applying call) := by
    intro session call found
    rcases Slots.getElem?_concat_cases found with there | ⟨-, new⟩
    · exact there
    · cases new
  refine ⟨?_, ?_, ?_, ?_, ?_, ?_⟩
  · exact fun session other call rival found also =>
      invariant.one session other call rival (old found) (old also)
  · refine fun quiet => invariant.rest fun session call found => quiet session call ?_
    exact Slots.getElem?_append_of found _
  · exact fun session call found => invariant.progress session call (old found)
  · exact fun session call found => invariant.sends session call (old found)
  · intro session call found stopping
    refine ⟨(invariant.stops session call (old found) stopping).1, .inl (timely ?_)⟩
    exact any_of_getElem? (old found) stopping
  · intro closed
    simp [step, Phase.isOpen] at closed

/-- A session at rest starts to apply a set. -/
theorem applies (call : Applying) (found : world.sessions[session]? = some .reading)
    (quiet : world.AtRest) {next : World}
    (sessions : next.sessions = world.sessions.set session (.applying call))
    (unlisted : call.others = Option.none)
    (todo : ∀ node mode, call.modes[node]? = some mode → node ∈ call.todo)
    (sends : call.stopping = false → call.modes = next.wanted)
    (stops : call.stopping = true →
      call.modes = ∅ ∧ (next.wanted.isEmpty ∨ world.OthersClosed session)) :
    Invariant next := by
  have only : ∀ {other : Nat} {rival : Applying},
      next.sessions[other]? = some (.applying rival) → other = session ∧ rival = call := by
    intro other rival there
    rw [sessions] at there
    rcases Slots.getElem?_set_cases there with ⟨rfl, same⟩ | ⟨-, before⟩
    · cases same
      exact ⟨rfl, rfl⟩
    · exact absurd before (quiet other rival)
  have here : next.sessions[session]? = some (.applying call) := by
    rw [sessions]
    exact Slots.getElem?_set_self found _
  refine ⟨?_, ?_, ?_, ?_, ?_, ?_⟩
  · exact fun first second call rival there also => (only there).1.trans (only also).1.symm
  · exact fun rest => absurd here (rest session _)
  · intro other rival there
    obtain ⟨-, rfl⟩ := only there
    exact ⟨fun node mode listed => .inl (todo node mode listed), by simp [unlisted],
      by simp [unlisted], by simp [unlisted]⟩
  · intro other rival there
    obtain ⟨-, rfl⟩ := only there
    exact sends
  · intro other rival there stopping
    obtain ⟨rfl, rfl⟩ := only there
    obtain ⟨empty, rest⟩ := stops stopping
    exact ⟨empty, rest.imp id fun closed => closed.of_set sessions⟩
  · intro closed
    rw [any_of_getElem? here rfl] at closed
    cases closed

theorem line (invariant : Invariant world) {modes : Modes}
    (timely : world.Timely (.line session modes)) :
    Invariant (world.step (.line session modes)) := by
  obtain ⟨quiet, newest⟩ := timely
  simp only [step]
  split
  · rename_i found
    have asked : (world.setSession session (.applying { modes, todo := modes.keys })).ask session
        modes = { world.setSession session (.applying { modes, todo := modes.keys }) with
          asked := some (session, modes) } := by
      simp only [ask, setSession]
      split
      · rename_i sender last sent
        have := newest (sender, last) sent
        simp only at this
        rw [if_neg (by omega)]
      · rfl
    rw [asked]
    refine applies { modes, todo := modes.keys } found (atRest_of_any quiet)
      rfl rfl (fun node mode listed => ?_) (fun _ => by simp [wanted]) (by simp)
    exact ExtTreeMap.mem_keys.mpr (ExtTreeMap.mem_iff_isSome_getElem?.mpr (by simp [listed]))
  · exact invariant

/-- A call of `apply_modes` goes on. -/
theorem proceeds (invariant : Invariant world) {call : Applying} (further : Applying)
    (found : world.sessions[session]? = some (.applying call)) {next : World}
    (sessions : next.sessions = world.sessions.set session (.applying further))
    (asked : next.asked = world.asked) (modes : further.modes = call.modes)
    (stopping : further.stopping = call.stopping) (progress : Progress next.mode further) :
    Invariant next := by
  have wanted : next.wanted = world.wanted := by simp only [World.wanted, asked]
  have only : ∀ {other : Nat} {rival : Applying},
      next.sessions[other]? = some (.applying rival) → other = session ∧ rival = further := by
    intro other rival there
    rw [sessions] at there
    rcases Slots.getElem?_set_cases there with ⟨rfl, same⟩ | ⟨different, before⟩
    · cases same
      exact ⟨rfl, rfl⟩
    · exact absurd (invariant.one session other call rival found before) different
  have here : next.sessions[session]? = some (.applying further) := by
    rw [sessions]
    exact Slots.getElem?_set_self found _
  refine ⟨?_, ?_, ?_, ?_, ?_, ?_⟩
  · exact fun first second call rival there also => (only there).1.trans (only also).1.symm
  · exact fun rest => absurd here (rest session _)
  · intro other rival there
    obtain ⟨-, rfl⟩ := only there
    exact progress
  · intro other rival there sending
    obtain ⟨-, rfl⟩ := only there
    rw [modes, wanted]
    exact invariant.sends session call found (stopping ▸ sending)
  · intro other rival there stops
    obtain ⟨rfl, rfl⟩ := only there
    obtain ⟨empty, rest⟩ := invariant.stops other call found (stopping ▸ stops)
    rw [modes, wanted]
    exact ⟨empty, rest.imp id fun closed => closed.of_set sessions⟩
  · intro closed
    rw [any_of_getElem? here rfl] at closed
    cases closed

theorem write (invariant : Invariant world) (session : Nat) (node : String) :
    Invariant (world.step (.write session node)) := by
  simp only [step]
  split
  · rename_i call found
    split
    · rename_i mode listed
      split
      · rename_i enabled
        simp only [Bool.and_eq_true, Option.isNone_iff_eq_none] at enabled
        have progress := invariant.progress session call found
        refine invariant.proceeds { call with todo := call.todo.erase node } found rfl rfl rfl rfl
          ⟨?_, by simp [enabled.1], by simp [enabled.1], by simp [enabled.1]⟩
        intro other set entry
        rw [mode_setMode]
        by_cases same : node = other
        · subst same
          exact .inr (by rw [if_pos rfl, ← listed, entry])
        · rw [if_neg same]
          refine (progress.written other set entry).imp_left fun left => ?_
          exact (List.mem_erase_of_ne (Ne.symm same)).mpr left
      · exact invariant
    · exact invariant
  · exact invariant

theorem list (invariant : Invariant world) (session : Nat) :
    Invariant (world.step (.list session)) := by
  simp only [step]
  split
  · rename_i call found
    split
    · rename_i enabled
      simp only [Bool.and_eq_true, List.isEmpty_iff] at enabled
      have progress := invariant.progress session call found
      refine invariant.proceeds
        { call with others := some (world.logs.keys.filter (¬call.modes.contains ·)) } found
        rfl rfl rfl rfl ⟨progress.written, fun _ _ => enabled.2, ?_, ?_⟩
      · intro others same node listed
        cases same
        have lacks := (List.mem_filter.mp listed).2
        simpa using lacks
      · intro others same node unlisted
        cases same
        -- a node without a log records nothing
        cases present : world.logs[node]? with
        | none => exact .inr (by simp [World.mode, setSession, present])
        | some mode =>
            refine .inl (List.mem_filter.mpr ⟨ExtTreeMap.mem_keys.mpr ?_, ?_⟩)
            · exact ExtTreeMap.mem_iff_isSome_getElem?.mpr (by simp [present])
            · simpa using unlisted
    · exact invariant
  · exact invariant

theorem silence (invariant : Invariant world) (session : Nat) (node : String) :
    Invariant (world.step (.silence session node)) := by
  simp only [step]
  split
  · rename_i call found
    split
    · rename_i others listed
      split
      · rename_i left
        have progress := invariant.progress session call found
        have apart := progress.apart others listed
        refine invariant.proceeds { call with others := some (others.erase node) } found
          rfl rfl rfl rfl ⟨?_, fun _ _ => progress.done others listed, ?_, ?_⟩
        · intro other mode entry
          refine (progress.written other mode entry).imp_right fun records => ?_
          rw [mode_setMode, if_neg]
          · exact records
          · rintro rfl
            rw [apart node left] at entry
            cases entry
        · intro rest same other member
          cases same
          exact apart other (List.mem_of_mem_erase member)
        · intro rest same other unlisted
          cases same
          rw [mode_setMode]
          by_cases equal : node = other
          · exact .inr (if_pos equal)
          · rw [if_neg equal]
            refine (progress.silenced others listed other unlisted).imp_left fun there => ?_
            exact (List.mem_erase_of_ne (Ne.symm equal)).mpr there
      · exact invariant
    · exact invariant
  · exact invariant

theorem log (invariant : Invariant world) (node : String) : Invariant (world.step (.log node)) := by
  simp only [step]
  split
  · exact invariant
  · rename_i absent
    have same : (world.setMode node Option.none).mode = world.mode := by
      funext other
      rw [mode_setMode]
      split
      · rename_i equal
        subst equal
        have missing : world.logs[node]? = Option.none := by simpa using absent
        simp [World.mode, missing]
      · rfl
    obtain ⟨one, rest, progress, sends, stops, none⟩ := invariant
    refine ⟨one, ?_, ?_, sends, stops, none⟩
    · rw [same]
      exact rest
    · rw [same]
      exact progress

/-- When `apply_modes` is through, the nodes record what its set says. -/
theorem records_of_finished {records : String → Option BodyMode} {call : Applying}
    (progress : Progress records call) (finished : call.others = some []) (node : String) :
    records node = call.modes[node]? := by
  cases listed : call.modes[node]? with
  | none => exact (progress.silenced [] finished node listed).resolve_left (by simp)
  | some mode =>
      refine (progress.written node mode listed).resolve_left ?_
      simp [progress.done [] finished]

/-- A session closes. If it was the last one open nothing may be recorded any more, and otherwise
what is recorded, with no other session applying a set, must be what is asked for. -/
theorem closes (invariant : Invariant world)
    (silent : (world.sessions.set session .closed).any (·.isOpen) = false →
      ∀ node, world.mode node = Option.none)
    (stays : (world.sessions.set session .closed).any (·.isOpen) →
      (∀ (other : Nat) (call : Applying), other ≠ session →
        world.sessions[other]? ≠ some (.applying call)) →
      ∀ node, world.mode node = world.wanted[node]?) :
    Invariant (world.close session) := by
  have old : ∀ {other : Nat} {call : Applying},
      (world.sessions.set session .closed)[other]? = some (.applying call) →
      other ≠ session ∧ world.sessions[other]? = some (.applying call) := by
    intro other call found
    rcases Slots.getElem?_set_cases found with ⟨-, new⟩ | ⟨different, there⟩
    · cases new
    · exact ⟨Ne.symm different, there⟩
  simp only [close, settle]
  split
  · rename_i isOpen
    refine ⟨?_, ?_, ?_, ?_, ?_, ?_⟩
    · exact fun first second call rival found also =>
        invariant.one first second call rival (old found).2 (old also).2
    · refine fun quiet => stays isOpen fun other call different found => quiet other call ?_
      exact (List.getElem?_set_ne (Ne.symm different)).trans found
    · exact fun other call found => invariant.progress other call (old found).2
    · exact fun other call found => invariant.sends other call (old found).2
    · intro other call found stopping
      obtain ⟨empty, rest⟩ := invariant.stops other call (old found).2 stopping
      refine ⟨empty, rest.imp id fun closed third phase different there => ?_⟩
      rcases Slots.getElem?_set_cases there with ⟨-, rfl⟩ | ⟨-, before⟩
      · rfl
      · exact closed third phase different before
    · exact fun closed => absurd isOpen (by simpa [setSession] using closed)
  · rename_i closed
    rw [Bool.not_eq_true] at closed
    have none : ∀ (other : Nat) (call : Applying),
        (world.sessions.set session .closed)[other]? ≠ some (.applying call) := by
      intro other call found
      have := List.any_eq_false.mp closed _ (List.mem_of_getElem? found)
      simp [Phase.isOpen] at this
    refine ⟨?_, ?_, ?_, ?_, ?_, fun _ => rfl⟩
    · exact fun first _ call _ found => absurd found (none first call)
    · exact fun _ node => (silent closed node).trans (by simp [wanted])
    · exact fun other call found => absurd found (none other call)
    · exact fun other call found => absurd found (none other call)
    · exact fun other call found => absurd found (none other call)

/-- A session that has applied its set reads on. -/
theorem reads (invariant : Invariant world) {call : Applying}
    (found : world.sessions[session]? = some (.applying call)) (finished : call.others = some [])
    (sending : call.stopping = false) : Invariant (world.setSession session .reading) := by
  have none : (world.setSession session .reading).AtRest := by
    intro other rival there
    rcases Slots.getElem?_set_cases there with ⟨-, new⟩ | ⟨different, before⟩
    · cases new
    · exact different (invariant.one session other call rival found before)
  refine ⟨?_, fun _ node => ?_, ?_, ?_, ?_, fun closed => ?_⟩
  · exact fun first _ rival _ there => absurd there (none first rival)
  · have wanted := invariant.sends session call found sending
    have records := records_of_finished (invariant.progress session call found) finished node
    rwa [wanted] at records
  · exact fun other rival there => absurd there (none other rival)
  · exact fun other rival there => absurd there (none other rival)
  · exact fun other rival there => absurd there (none other rival)
  · rw [any_of_getElem? (Slots.getElem?_set_self found _) rfl] at closed
    cases closed

theorem finish (invariant : Invariant world) (session : Nat) :
    Invariant (world.step (.finish session)) := by
  simp only [step]
  split
  · rename_i call found
    split
    · rename_i finished
      split
      · rename_i stopping
        obtain ⟨empty, rest⟩ := invariant.stops session call found stopping
        have silent : ∀ node, world.mode node = Option.none := fun node => by
          rw [records_of_finished (invariant.progress session call found) finished node, empty]
          simp
        refine invariant.closes (fun _ => silent) fun isOpen _ node => ?_
        rcases rest with nothing | closed
        · rw [silent, ExtTreeMap.isEmpty_iff.mp nothing]
          simp
        · -- all sessions are closed now
          obtain ⟨phase, member, opened⟩ := List.any_eq_true.mp isOpen
          obtain ⟨other, there⟩ := List.getElem?_of_mem member
          rcases Slots.getElem?_set_cases there with ⟨-, rfl⟩ | ⟨different, before⟩
          · cases opened
          · rw [closed other phase (Ne.symm different) before] at opened
            cases opened
      · rename_i sending
        exact invariant.reads found finished (by simpa using sending)
    · exact invariant
  · exact invariant

theorem stop (invariant : Invariant world) (timely : world.Timely (.stop session)) :
    Invariant (world.step (.stop session)) := by
  simp only [step]
  split
  · rename_i found
    have reading : ∀ call, world.sessions[session]? ≠ some (.applying call) := by
      intro call applying
      cases found.symm.trans applying
    simp only [Timely] at timely
    split at timely
    · rename_i newest
      obtain ⟨quiet, rest⟩ := timely
      rw [if_pos newest]
      exact applies { modes := ∅, todo := [], stopping := true } found (atRest_of_any quiet) rfl rfl
        (by simp) (by simp) fun _ => ⟨rfl, rest.imp id othersClosed_of_any⟩
    · rename_i older
      rw [if_neg older]
      have rest : (∀ (other : Nat) (call : Applying), other ≠ session →
          world.sessions[other]? ≠ some (.applying call)) → world.AtRest := by
        intro others other call there
        by_cases same : other = session
        · exact reading call (same ▸ there)
        · exact others other call same there
      refine invariant.closes (fun closed node => ?_) fun _ others => invariant.rest (rest others)
      have nothing := timely.resolve_right (by simp [closed])
      have others := othersClosed_of_any closed
      have quiet : world.AtRest := rest fun other call different there => by
        cases others other _ different there
      rw [invariant.rest quiet node, ExtTreeMap.isEmpty_iff.mp nothing]
      simp
  · exact invariant

theorem step (invariant : Invariant world) {event : Event} (timely : world.Timely event) :
    Invariant (world.step event) := by
  cases event with
  | openSession => exact invariant.openSession timely
  | line session modes => exact invariant.line timely
  | stop session => exact invariant.stop timely
  | write session node => exact invariant.write session node
  | list session => exact invariant.list session
  | silence session node => exact invariant.silence session node
  | finish session => exact invariant.finish session
  | log node => exact invariant.log node

end Invariant

/-- With no session open no node records, and with no set being applied the nodes record what the
newest session that has sent a set asked for last. -/
structure RecordsAsAsked (world : World) : Prop where
  silent : world.sessions.any (·.isOpen) = false → ∀ node, world.mode node = none
  inForce : world.AtRest → ∀ node, world.mode node = world.wanted[node]?

/-- Where sessions take turns, the sidecar records what it is asked to. -/
theorem records_as_asked {events : List Event} (timely : Execution.Along step Timely {} events) :
    (after events).RecordsAsAsked := by
  have invariant : Invariant (after events) :=
    Execution.run_invariant step Timely Invariant (fun _ _ kept timely => kept.step timely) .init
      timely
  refine ⟨fun closed node => ?_, invariant.rest⟩
  have quiet : (after events).AtRest := by
    intro session call found
    have := List.any_eq_false.mp closed _ (List.mem_of_getElem? found)
    simp [Phase.isOpen] at this
  rw [invariant.rest quiet node, wanted, invariant.none closed]
  simp

/-- A session sends a set naming one node, and it is applied. -/
def sends (session : Nat) (node : String) (mode : BodyMode) : List Event :=
  [.line session ((∅ : Modes).insert node mode), .write session node, .list session,
    .finish session]

/-- fghjd records a node, reconnects, and changes the set; the old session is noticed as gone. -/
def reconnect : List Event :=
  [.openSession] ++ sends 0 "api" .text ++ [.openSession] ++ sends 1 "api" .all ++ [.stop 0]

theorem records_as_asked_reconnect : (after reconnect).RecordsAsAsked :=
  records_as_asked (by decide)

/-- After a reconnect a late line of the old session is applied over the new one's set. -/
def lateLine : List Event :=
  [.openSession, .openSession] ++ sends 1 "api" .text ++ sends 0 "api" .all

/-- A session that found itself newest stops the recording a newer one has just asked for. -/
def lateStop : List Event :=
  [.openSession] ++ sends 0 "api" .text ++ [.stop 0, .openSession] ++ sends 1 "api" .text ++
    [.list 0, .silence 0 "api", .finish 0]

/-- A late line comes after the newest session's end, and then the old session ends. -/
def leftOn : List Event :=
  [.openSession, .openSession, .stop 1, .list 1, .finish 1] ++ sends 0 "api" .all ++ [.stop 0]

theorem recorded_out_of_turn : ¬(after lateLine).RecordsAsAsked ∧
    ¬(after lateStop).RecordsAsAsked ∧ ¬(after leftOn).RecordsAsAsked := by
  refine ⟨fun asked => ?_, fun asked => ?_, fun asked => ?_⟩
  · have inForce := asked.inForce (atRest_of_any (by decide)) "api"
    exact absurd inForce (by decide)
  · have inForce := asked.inForce (atRest_of_any (by decide)) "api"
    exact absurd inForce (by decide)
  · have silent := asked.silent (by decide) "api"
    exact absurd silent (by decide)

end World
end CaptureSessions
end Fghj
