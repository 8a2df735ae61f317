import Fghj.Library.Execution
import Fghj.Library.Slots

/-!
# Sharing the resolves of a workspace

`resolve_universe_async` runs one resolve of a workspace at a time and hands its result to every
caller that asked before it began. A caller may be dropped at each of its awaits; the resolve it
began runs on without it.
-/

namespace Fghj
namespace SharedResolve

/-- How a resolve on the blocking pool ended. -/
inductive Outcome (G : Type) where
  | resolved (graph : G)
  | failed (error : String)
  | panicked (error : String)

/-- The result as it is handed out, an error as its text. -/
def Outcome.result {G : Type} : Outcome G → Except String G
  | .resolved graph => .ok graph
  | .failed error => .error error
  | .panicked error => .error ("resolve_universe task panicked: " ++ error)

/-- What the callers of one workspace share. -/
structure Shared (G : Type) where
  /-- The caller that has its turn. -/
  running : Option Nat := none
  /-- The last resolve's ticket and result. -/
  last : Option (Nat × Except String G) := none

/-- Where a caller is. -/
inductive Phase (G : Type) where
  | called
  | waiting (asked : Nat)
  | turn (asked : Nat)
  | beginning (asked : Nat)
  | resolving (asked began resolve : Nat)
  | answered (answer : Except String G)
  | dropped

/-- A caller. `askedAt` is when it took its ticket; the code does not keep it. -/
structure Call (W G : Type) where
  workspace : W
  askedAt : Nat := 0
  phase : Phase G := .called

/-- A resolve on the blocking pool. The times are when its ticket was taken and when it was first
run; the code does not keep them. -/
structure Resolve (W G : Type) where
  workspace : W
  began : Nat
  beganAt : Nat
  startedAt : Option Nat := none
  outcome : Option (Outcome G) := none

structure World (W G : Type) where
  time : Nat := 0
  /-- 64 bits that no daemon lives long enough to use up. -/
  tickets : Nat := 0
  shared : W → Shared G := fun _ => {}
  calls : List (Call W G) := []
  resolves : List (Resolve W G) := []

inductive Event (W G : Type) where
  | call (workspace : W)
  | ask (caller : Nat)
  | acquire (caller : Nat)
  | check (caller : Nat)
  | begin (caller : Nat)
  /-- The blocking pool gets to a resolve. -/
  | start (resolve : Nat)
  | finish (resolve : Nat) (outcome : Outcome G)
  | resume (caller : Nat)
  | drop (caller : Nat)

namespace World

variable {W G : Type} [DecidableEq W]

def setCall (world : World W G) (caller : Nat) (call : Call W G) : World W G :=
  { world with calls := world.calls.set caller call }

def setShared (world : World W G) (workspace : W) (shared : Shared G) : World W G :=
  { world with
    shared := fun other => if other = workspace then shared else world.shared other }

/-- The caller's turn is over. -/
def release (world : World W G) (workspace : W) : World W G :=
  world.setShared workspace { world.shared workspace with running := none }

/-- A caller takes its ticket. -/
def ask (world : World W G) (caller : Nat) (call : Call W G) : World W G :=
  { world.setCall caller { call with askedAt := world.time, phase := .waiting world.tickets } with
    tickets := world.tickets + 1 }

/-- The caller whose turn it is looks at the last result. -/
def check (world : World W G) (caller : Nat) (call : Call W G) (asked : Nat) : World W G :=
  match (world.shared call.workspace).last with
  | some (began, result) =>
      if began > asked then
        (world.setCall caller { call with phase := .answered result }).release call.workspace
      else world.setCall caller { call with phase := .beginning asked }
  | none => world.setCall caller { call with phase := .beginning asked }

/-- The caller takes a ticket for a resolve and hands it to the blocking pool. -/
def begin (world : World W G) (caller : Nat) (call : Call W G) (asked : Nat) : World W G :=
  { world.setCall caller
      { call with phase := .resolving asked world.tickets world.resolves.length } with
    tickets := world.tickets + 1
    resolves := world.resolves ++ [⟨call.workspace, world.tickets, world.time, none, none⟩] }

/-- The caller's resolve is over: its result is kept for those who wait, and handed out. -/
def resume (world : World W G) (caller : Nat) (call : Call W G) (began : Nat)
    (outcome : Outcome G) : World W G :=
  (world.setCall caller { call with phase := .answered outcome.result }).setShared call.workspace
    { running := none, last := some (began, outcome.result) }

/-- A caller is dropped: at its first poll, while it waits, or in the middle of a resolve. -/
def drop (world : World W G) (caller : Nat) (call : Call W G) : World W G :=
  let gone := world.setCall caller { call with phase := .dropped }
  match call.phase with
  | .called | .waiting _ => gone
  | .turn _ | .resolving _ _ _ => gone.release call.workspace
  | .beginning _ | .answered _ | .dropped => world

/-- One event, at the time it happens. -/
def act (world : World W G) : Event W G → World W G
  | .call workspace => { world with calls := world.calls ++ [{ workspace }] }
  | .ask caller =>
      match world.calls[caller]? with
      | some call =>
          match call.phase with
          | .called => world.ask caller call
          | _ => world
      | none => world
  | .acquire caller =>
      match world.calls[caller]? with
      | some call =>
          match call.phase, (world.shared call.workspace).running with
          | .waiting asked, none =>
              (world.setCall caller { call with phase := .turn asked }).setShared call.workspace
                { world.shared call.workspace with running := some caller }
          | _, _ => world
      | none => world
  | .check caller =>
      match world.calls[caller]? with
      | some call =>
          match call.phase with
          | .turn asked => world.check caller call asked
          | _ => world
      | none => world
  | .begin caller =>
      match world.calls[caller]? with
      | some call =>
          match call.phase with
          | .beginning asked => world.begin caller call asked
          | _ => world
      | none => world
  | .start number =>
      match world.resolves[number]? with
      | some resolve =>
          if resolve.startedAt.isNone then
            { world with
              resolves := world.resolves.set number
                { resolve with startedAt := some world.time } }
          else world
      | none => world
  | .finish number outcome =>
      match world.resolves[number]? with
      | some resolve =>
          if resolve.startedAt.isSome && resolve.outcome.isNone then
            { world with
              resolves := world.resolves.set number { resolve with outcome := some outcome } }
          else world
      | none => world
  | .resume caller =>
      match world.calls[caller]? with
      | some call =>
          match call.phase with
          | .resolving _ began number =>
              match (world.resolves[number]?).bind (·.outcome) with
              | some outcome => world.resume caller call began outcome
              | none => world
          | _ => world
      | none => world
  | .drop caller =>
      match world.calls[caller]? with
      | some call => world.drop caller call
      | none => world

def step (world : World W G) (event : Event W G) : World W G :=
  { world.act event with time := world.time + 1 }

/-- What the events lead to when nobody has asked yet. -/
def after (events : List (Event W G)) : World W G := Execution.run step {} events

end World
/-! ## What is kept -/

section Kept

variable {W G : Type}

def Phase.asked : Phase G → Option Nat
  | .waiting asked | .turn asked | .beginning asked | .resolving asked _ _ => some asked
  | .called | .answered _ | .dropped => none

def Phase.HasTurn : Phase G → Prop
  | .turn _ | .beginning _ | .resolving _ _ _ => True
  | .called | .waiting _ | .answered _ | .dropped => False

/-- The same resolve, perhaps further on. -/
structure Resolve.Grows (resolve later : Resolve W G) : Prop where
  workspace : later.workspace = resolve.workspace
  began : later.began = resolve.began
  beganAt : later.beganAt = resolve.beganAt
  startedAt : ∀ time ∈ resolve.startedAt, later.startedAt = some time
  outcome : ∀ outcome ∈ resolve.outcome, later.outcome = some outcome

theorem Resolve.Grows.refl (resolve : Resolve W G) : resolve.Grows resolve :=
  ⟨rfl, rfl, rfl, fun _ => id, fun _ => id⟩

/-- Time and tickets go on, resolves go on, and new ones are begun now. -/
structure Extends (world later : World W G) : Prop where
  tickets : world.tickets ≤ later.tickets
  time : world.time ≤ later.time
  kept : ∀ (number : Nat) (resolve : Resolve W G), world.resolves[number]? = some resolve →
    ∃ further, later.resolves[number]? = some further ∧ resolve.Grows further
  fresh : ∀ further ∈ later.resolves,
    (∃ resolve ∈ world.resolves, resolve.Grows further) ∨ world.time ≤ further.beganAt

variable {world later : World W G}

theorem Extends.of_same (tickets : world.tickets ≤ later.tickets) (time : world.time ≤ later.time)
    (resolves : later.resolves = world.resolves) : Extends world later where
  tickets := tickets
  time := time
  kept _ resolve found := ⟨resolve, resolves ▸ found, .refl resolve⟩
  fresh further member := .inl ⟨further, resolves ▸ member, .refl further⟩

/-- The answer is the result of a resolve of the caller's workspace that was first run after the
caller asked. -/
def Fresh (world : World W G) (call : Call W G) (answer : Except String G) : Prop :=
  ∃ resolve ∈ world.resolves, resolve.workspace = call.workspace ∧
    (∃ started ∈ resolve.startedAt, call.askedAt < started) ∧
    ∃ outcome ∈ resolve.outcome, outcome.result = answer

structure CallOk (world : World W G) (caller : Nat) (call : Call W G) : Prop where
  turn : call.phase.HasTurn → (world.shared call.workspace).running = some caller
  asked : ∀ asked ∈ call.phase.asked, asked < world.tickets ∧ call.askedAt < world.time ∧
    ∀ resolve ∈ world.resolves, asked < resolve.began → call.askedAt < resolve.beganAt
  resolving : ∀ asked began number, call.phase = .resolving asked began number →
    asked < began ∧ ∃ resolve, world.resolves[number]? = some resolve ∧
      resolve.workspace = call.workspace ∧ resolve.began = began
  answered : ∀ answer, call.phase = .answered answer → Fresh world call answer

structure ResolveOk (world : World W G) (resolve : Resolve W G) : Prop where
  began : resolve.began < world.tickets
  beganAt : resolve.beganAt < world.time
  started : ∀ time ∈ resolve.startedAt, resolve.beganAt < time
  ended : resolve.outcome.isSome → resolve.startedAt.isSome

/-- The last result kept for a workspace is that of a resolve of it. -/
def LastOk (world : World W G) (workspace : W) : Prop :=
  ∀ last ∈ (world.shared workspace).last, ∃ resolve ∈ world.resolves,
    resolve.workspace = workspace ∧ resolve.began = last.1 ∧
      ∃ outcome ∈ resolve.outcome, outcome.result = last.2

structure Invariant (world : World W G) : Prop where
  calls : ∀ caller call, world.calls[caller]? = some call → CallOk world caller call
  resolves : ∀ resolve ∈ world.resolves, ResolveOk world resolve
  last : ∀ workspace, LastOk world workspace

variable {call : Call W G}

theorem Fresh.mono (ext : Extends world later) {answer : Except String G}
    (fresh : Fresh world call answer) : Fresh later call answer := by
  obtain ⟨resolve, member, workspace, ⟨started, ran, after⟩, outcome, ended, same⟩ := fresh
  obtain ⟨number, found⟩ := List.getElem?_of_mem member
  obtain ⟨further, there, grows⟩ := ext.kept number resolve found
  exact ⟨further, List.mem_of_getElem? there, grows.workspace.trans workspace,
    ⟨started, grows.startedAt started ran, after⟩, outcome, grows.outcome outcome ended, same⟩

variable {caller : Nat}

/-- Resolves begun from now on are begun after every ticket taken so far. -/
theorem CallOk.asked_later (ext : Extends world later) (ok : CallOk world caller call) :
    ∀ asked ∈ call.phase.asked,
      asked < later.tickets ∧ call.askedAt < later.time ∧
        ∀ resolve ∈ later.resolves, asked < resolve.began → call.askedAt < resolve.beganAt := by
  intro asked listed
  obtain ⟨ticket, time, before⟩ := ok.asked asked listed
  refine ⟨ticket.trans_le ext.tickets, time.trans_le ext.time, fun further member low => ?_⟩
  rcases ext.fresh further member with ⟨resolve, there, grows⟩ | new
  · rw [grows.beganAt]
    exact before resolve there (grows.began ▸ low)
  · exact time.trans_le new

theorem CallOk.mono (ext : Extends world later) (ok : CallOk world caller call)

    (running : (world.shared call.workspace).running = some caller →
      (later.shared call.workspace).running = some caller) :
    CallOk later caller call where
  turn has := running (ok.turn has)
  asked := ok.asked_later ext
  resolving := by
    intro asked began number phase
    obtain ⟨order, resolve, found, workspace, ticket⟩ := ok.resolving asked began number phase
    obtain ⟨further, there, grows⟩ := ext.kept number resolve found
    exact ⟨order, further, there, grows.workspace.trans workspace, grows.began.trans ticket⟩
  answered answer phase := (ok.answered answer phase).mono ext

/-- A caller that has or gets its turn goes on with the ticket it has. -/
theorem CallOk.turned (ext : Extends world later) (ok : CallOk world caller call) {phase : Phase G}
    (same : phase.asked = call.phase.asked) (has : phase.HasTurn)
    (running : (later.shared call.workspace).running = some caller)

    (resolving : ∀ asked began number, phase = .resolving asked began number →
      asked < began ∧ ∃ resolve, later.resolves[number]? = some resolve ∧
        resolve.workspace = call.workspace ∧ resolve.began = began) :
    CallOk later caller { call with phase := phase } where
  turn _ := running
  asked asked listed := ok.asked_later ext asked (same ▸ listed)
  resolving := resolving
  answered answer given := by
    simp only at given
    rw [given] at has
    exact has.elim

/-- A caller that is through holds no turn and no ticket. -/
theorem CallOk.through {later : World W G} (asked : call.phase.asked = none)
    (turn : ¬call.phase.HasTurn)
    (answered : ∀ answer, call.phase = .answered answer → Fresh later call answer) :
    CallOk later caller call where
  turn has := absurd has turn
  asked ticket listed := by
    rw [asked] at listed
    cases listed
  resolving _ _ _ phase := by
    rw [phase] at asked
    cases asked
  answered := answered

theorem LastOk.mono (ext : Extends world later) {workspace : W} (ok : LastOk world workspace)
    (same : (later.shared workspace).last = (world.shared workspace).last) :
    LastOk later workspace := by
  intro last kept
  rw [same] at kept
  obtain ⟨resolve, member, own, began, outcome, ended, result⟩ := ok last kept
  obtain ⟨number, found⟩ := List.getElem?_of_mem member
  obtain ⟨further, there, grows⟩ := ext.kept number resolve found
  exact ⟨further, List.mem_of_getElem? there, grows.workspace.trans own, grows.began.trans began,
    outcome, grows.outcome outcome ended, result⟩

theorem ResolveOk.mono {resolve : Resolve W G} (ok : ResolveOk world resolve)
    (tickets : world.tickets ≤ later.tickets) (time : world.time ≤ later.time) :
    ResolveOk later resolve :=
  ⟨ok.began.trans_le tickets, ok.beganAt.trans_le time, ok.started, ok.ended⟩

namespace Invariant

variable {world later : World W G}

/-- One caller goes on; every other keeps its turn. -/
theorem replace (invariant : Invariant world) (ext : Extends world later)
    (calls : later.calls = world.calls.set caller call)
    (running : ∀ workspace other, other ≠ caller →
      (world.shared workspace).running = some other →
      (later.shared workspace).running = some other)
    (resolves : ∀ resolve ∈ later.resolves, ResolveOk later resolve)
    (last : ∀ workspace, LastOk later workspace) (ok : CallOk later caller call) :
    Invariant later where
  calls := by
    intro other entry found
    rw [calls] at found
    rcases Slots.getElem?_set_cases found with ⟨rfl, rfl⟩ | ⟨different, there⟩
    · exact ok
    · exact (invariant.calls other entry there).mono ext (running _ other (Ne.symm different))
  resolves := resolves
  last := last

/-- No caller goes on, and none loses its turn. -/
theorem same (invariant : Invariant world) (ext : Extends world later)
    (calls : later.calls = world.calls) (shared : later.shared = world.shared)
    (resolves : ∀ resolve ∈ later.resolves, ResolveOk later resolve) : Invariant later where
  calls := by
    intro other entry found
    rw [calls] at found
    exact (invariant.calls other entry found).mono ext fun running => shared ▸ running
  resolves := resolves
  last workspace := (invariant.last workspace).mono ext (by rw [shared])

theorem init : Invariant ({} : World W G) where
  calls caller call found := by simp at found
  resolves resolve member := by cases member
  last workspace last kept := by cases kept

/-- The resolves are what they were, at a later time. -/
theorem resolves_same (invariant : Invariant world) (same : later.resolves = world.resolves)
    (tickets : world.tickets ≤ later.tickets) (time : world.time ≤ later.time) :
    ∀ resolve ∈ later.resolves, ResolveOk later resolve :=
  fun resolve member => (invariant.resolves resolve (same ▸ member)).mono tickets time

end Invariant
end Kept

/-! ## Every event keeps it -/

namespace Invariant

variable {W G : Type} {world : World W G} {caller : Nat} {call : Call W G} {asked : Nat}

theorem idle (invariant : Invariant world) : Invariant { world with time := world.time + 1 } :=
  invariant.same (.of_same (Nat.le_refl _) (Nat.le_succ _) rfl) rfl rfl
    (invariant.resolves_same rfl (Nat.le_refl _) (Nat.le_succ _))

/-- A ticket just taken is above those of all resolves so far. -/
theorem ask (invariant : Invariant world) :
    Invariant { world.ask caller call with time := world.time + 1 } := by
  have ext : Extends world { world.ask caller call with time := world.time + 1 } :=
    .of_same (Nat.le_succ _) (Nat.le_succ _) rfl
  refine invariant.replace ext rfl (fun _ _ _ => id)
    (invariant.resolves_same rfl (Nat.le_succ _) (Nat.le_succ _))
    (fun own => (invariant.last own).mono ext rfl) ⟨False.elim, ?_, ?_, ?_⟩
  · intro asked same
    obtain rfl := Option.some.inj same
    refine ⟨Nat.lt_succ_self _, Nat.lt_succ_self _, fun resolve member above => ?_⟩
    exact absurd (invariant.resolves resolve member).began (by omega)
  · intro _ _ _ phase
    cases phase
  · intro _ phase
    cases phase

/-- The caller has its turn and goes on with it. -/
theorem onward (invariant : Invariant world) (found : world.calls[caller]? = some call)
    (turn : call.phase.HasTurn) {phase : Phase G} (same : phase.asked = call.phase.asked)
    (has : phase.HasTurn) (resolving : ∀ asked began number,
      phase ≠ .resolving asked began number) :
    Invariant { world.setCall caller { call with phase := phase } with
      time := world.time + 1 } := by
  have ext : Extends world { world.setCall caller { call with phase := phase } with
      time := world.time + 1 } := .of_same (Nat.le_refl _) (Nat.le_succ _) rfl
  have ok := invariant.calls caller call found
  exact invariant.replace ext rfl (fun _ _ _ => id)
    (invariant.resolves_same rfl (Nat.le_refl _) (Nat.le_succ _))
    (fun own => (invariant.last own).mono ext rfl)
    (ok.turned ext same has (ok.turn turn) fun asked began number is =>
      absurd is (resolving asked began number))

theorem begin (invariant : Invariant world) (found : world.calls[caller]? = some call)
    (phase : call.phase = .beginning asked) :
    Invariant { world.begin caller call asked with time := world.time + 1 } := by
  have ext : Extends world { world.begin caller call asked with time := world.time + 1 } := by
    refine ⟨Nat.le_succ _, Nat.le_succ _, fun number resolve found => ?_, fun further member => ?_⟩
    · refine ⟨resolve, ?_, .refl resolve⟩
      exact Slots.getElem?_append_of found _
    · rcases List.mem_append.mp member with old | new
      · exact .inl ⟨further, old, .refl further⟩
      · obtain rfl := List.mem_singleton.mp new
        exact .inr (Nat.le_refl _)
  have ok := invariant.calls caller call found
  have ticket := (ok.asked asked (by rw [phase]; rfl)).1
  refine invariant.replace ext rfl (fun _ _ _ => id) ?_
    (fun own => (invariant.last own).mono ext rfl)
    (ok.turned ext (by rw [phase]; rfl) trivial (ok.turn (by rw [phase]; trivial)) ?_)
  · intro resolve member
    rcases List.mem_append.mp member with old | new
    · exact (invariant.resolves resolve old).mono (Nat.le_succ _) (Nat.le_succ _)
    · obtain rfl := List.mem_singleton.mp new
      exact ⟨Nat.lt_succ_self _, Nat.lt_succ_self _, by simp, by simp⟩
  · intro other began number same
    cases same
    exact ⟨ticket, _, List.getElem?_concat_length, rfl, rfl⟩

/-- A resolve goes on, begun when it was. -/
theorem grow (invariant : Invariant world) {number : Nat} {resolve further : Resolve W G}
    (found : world.resolves[number]? = some resolve) (grows : resolve.Grows further)
    (started : ∀ time ∈ further.startedAt, resolve.beganAt < time)
    (ended : further.outcome.isSome → further.startedAt.isSome) :
    Invariant { world with
      resolves := world.resolves.set number further, time := world.time + 1 } := by
  have member := List.mem_of_getElem? found
  refine invariant.same ⟨Nat.le_refl _, Nat.le_succ _, ?_, ?_⟩ rfl rfl ?_
  · intro other entry there
    by_cases same : number = other
    · subst same
      obtain rfl := Option.some.inj (found.symm.trans there)
      exact ⟨further, Slots.getElem?_set_self found further, grows⟩
    · exact ⟨entry, (List.getElem?_set_ne same).trans there, .refl entry⟩
  · intro entry listed
    rcases List.mem_or_eq_of_mem_set listed with old | rfl
    · exact .inl ⟨entry, old, .refl entry⟩
    · exact .inl ⟨resolve, member, grows⟩
  · intro entry listed
    rcases List.mem_or_eq_of_mem_set listed with old | rfl
    · exact (invariant.resolves entry old).mono (Nat.le_refl _) (Nat.le_succ _)
    · obtain ⟨began, beganAt, -, -⟩ := invariant.resolves resolve member
      refine ⟨?_, ?_, ?_, ended⟩
      · rw [grows.began]
        exact began
      · rw [grows.beganAt]
        exact Nat.lt_succ_of_lt beganAt
      · rw [grows.beganAt]
        exact started

/-- A caller without a turn is dropped. -/
theorem leave (invariant : Invariant world) :
    Invariant { world.setCall caller { call with phase := .dropped } with
      time := world.time + 1 } := by
  have ext : Extends world { world.setCall caller { call with phase := .dropped } with
      time := world.time + 1 } := .of_same (Nat.le_refl _) (Nat.le_succ _) rfl
  exact invariant.replace ext rfl (fun _ _ _ => id)
    (invariant.resolves_same rfl (Nat.le_refl _) (Nat.le_succ _))
    (fun own => (invariant.last own).mono ext rfl) (.through rfl id fun _ phase => by cases phase)

variable [DecidableEq W]

theorem step_call (invariant : Invariant world) (workspace : W) :
    Invariant (world.step (.call workspace)) := by
  have ext : Extends world (world.step (.call workspace)) :=
    .of_same (Nat.le_refl _) (Nat.le_succ _) rfl
  refine ⟨fun caller call found => ?_, ?_, fun own => (invariant.last own).mono ext rfl⟩
  · simp only [World.step, World.act] at found
    rcases Slots.getElem?_concat_cases found with old | ⟨-, rfl⟩
    · exact (invariant.calls caller call old).mono ext id
    · exact .through rfl id fun _ phase => by cases phase
  · exact invariant.resolves_same rfl (Nat.le_refl _) (Nat.le_succ _)

/-- The turn is free, so nobody loses it. -/
theorem acquire (invariant : Invariant world) (found : world.calls[caller]? = some call)
    (phase : call.phase = .waiting asked)
    (free : (world.shared call.workspace).running = none) :
    Invariant { (world.setCall caller { call with phase := .turn asked }).setShared call.workspace
      { world.shared call.workspace with running := some caller } with
        time := world.time + 1 } := by
  have ext : Extends world { (world.setCall caller { call with phase := .turn asked }).setShared
      call.workspace { world.shared call.workspace with running := some caller } with
        time := world.time + 1 } := .of_same (Nat.le_refl _) (Nat.le_succ _) rfl
  refine invariant.replace ext rfl ?_ (invariant.resolves_same rfl (Nat.le_refl _) (Nat.le_succ _))
    (fun own => (invariant.last own).mono ext ?_)
    ((invariant.calls caller call found).turned ext (by rw [phase]; rfl) trivial ?_ ?_)
  · intro workspace other _ running
    simp only [World.setShared]
    split
    · rename_i same
      rw [same, free] at running
      cases running
    · exact running
  · simp only [World.setShared]
    split
    · rename_i same
      rw [same]
    · rfl
  · simp [World.setShared]
  · intro _ _ _ phase
    cases phase

/-- A caller gives up its turn, and keeps or leaves a result of its workspace. -/
theorem give (invariant : Invariant world) (found : world.calls[caller]? = some call)
    (turn : call.phase.HasTurn) {phase : Phase G} {last : Option (Nat × Except String G)}
    (asked : phase.asked = none) (done : ¬phase.HasTurn)
    (answered : ∀ answer, phase = .answered answer → Fresh world call answer)
    (lastOk : ∀ kept ∈ last, ∃ resolve ∈ world.resolves, resolve.workspace = call.workspace ∧
      resolve.began = kept.1 ∧ ∃ outcome ∈ resolve.outcome, outcome.result = kept.2) :
    Invariant { (world.setCall caller { call with phase := phase }).setShared call.workspace
      { running := none, last := last } with time := world.time + 1 } := by
  have ext : Extends world { (world.setCall caller { call with phase := phase }).setShared
      call.workspace { running := none, last := last } with time := world.time + 1 } :=
    .of_same (Nat.le_refl _) (Nat.le_succ _) rfl
  have mine := (invariant.calls caller call found).turn turn
  refine invariant.replace ext rfl ?_ (invariant.resolves_same rfl (Nat.le_refl _) (Nat.le_succ _))
    ?_ (.through asked done fun answer given => (answered answer given).mono ext)
  · intro workspace other different running
    simp only [World.setShared]
    split
    · rename_i same
      rw [same, mine] at running
      exact absurd (Option.some.inj running).symm different
    · exact running
  · intro own kept held
    simp only [World.setShared] at held
    split at held
    · rename_i same
      rw [same]
      exact lastOk kept held
    · exact invariant.last own kept held

theorem check (invariant : Invariant world) (found : world.calls[caller]? = some call)
    (phase : call.phase = .turn asked) :
    Invariant { world.check caller call asked with time := world.time + 1 } := by
  have turn : call.phase.HasTurn := by rw [phase]; trivial
  have same : (Phase.beginning asked : Phase G).asked = call.phase.asked := by rw [phase]; rfl
  unfold World.check
  split
  · rename_i began result kept
    split
    · rename_i newer
      refine invariant.give found turn rfl id (fun answer given => ?_)
        (invariant.last call.workspace)
      cases given
      -- the resolve's ticket is above the caller's, so it was begun, and run, later
      obtain ⟨resolve, member, own, ticket, outcome, ended, is⟩ :=
        invariant.last call.workspace _ kept
      have later := ((invariant.calls caller call found).asked asked (by rw [phase]; rfl)).2.2
        resolve member (by rw [ticket]; exact newer)
      have ok := invariant.resolves resolve member
      obtain ⟨started, ran⟩ := Option.isSome_iff_exists.mp
        (ok.ended (Option.isSome_iff_exists.mpr ⟨outcome, ended⟩))
      exact ⟨resolve, member, own, ⟨started, ran, later.trans (ok.started started ran)⟩, outcome,
        ended, is⟩
    · exact invariant.onward found turn same trivial (by simp)
  · exact invariant.onward found turn same trivial (by simp)

theorem resume (invariant : Invariant world) (found : world.calls[caller]? = some call)
    {began number : Nat} {outcome : Outcome G} (phase : call.phase = .resolving asked began number)
    (ended : (world.resolves[number]?).bind (·.outcome) = some outcome) :
    Invariant { world.resume caller call began outcome with time := world.time + 1 } := by
  have ok := invariant.calls caller call found
  obtain ⟨order, resolve, there, own, ticket⟩ := ok.resolving asked began number phase
  rw [there, Option.bind_some] at ended
  have member := List.mem_of_getElem? there
  have resolved := invariant.resolves resolve member
  refine invariant.give found (by rw [phase]; trivial) rfl id (fun answer given => ?_) ?_
  · cases given
    have later := (ok.asked asked (by rw [phase]; rfl)).2.2 resolve member
      (by rw [ticket]; exact order)
    obtain ⟨started, ran⟩ := Option.isSome_iff_exists.mp
      (resolved.ended (Option.isSome_iff_exists.mpr ⟨outcome, ended⟩))
    exact ⟨resolve, member, own, ⟨started, ran, later.trans (resolved.started started ran)⟩,
      outcome, ended, rfl⟩
  · intro kept same
    cases same
    exact ⟨resolve, member, own, ticket, outcome, ended, rfl⟩

theorem drop (invariant : Invariant world) (found : world.calls[caller]? = some call) :
    Invariant { world.drop caller call with time := world.time + 1 } := by
  have released : call.phase.HasTurn → Invariant { (world.setCall caller
      { call with phase := .dropped }).release call.workspace with time := world.time + 1 } :=
    fun turn => invariant.give found turn rfl id (fun _ phase => by cases phase)
      (invariant.last call.workspace)
  cases phase : call.phase with
  | called | waiting asked => simpa only [World.drop, phase] using invariant.leave
  | turn asked | resolving asked began number =>
      simpa only [World.drop, phase] using released (by rw [phase]; trivial)
  | beginning asked | answered answer | dropped =>
      simpa only [World.drop, phase] using invariant.idle

theorem step (invariant : Invariant world) (event : Event W G) : Invariant (world.step event) := by
  cases event with
  | call workspace => exact invariant.step_call workspace
  | ask caller =>
      simp only [World.step, World.act]
      split
      · split
        · exact invariant.ask
        · exact invariant.idle
      · exact invariant.idle
  | acquire caller =>
      simp only [World.step, World.act]
      split
      · split
        · exact invariant.acquire ‹_› ‹_› ‹_›
        · exact invariant.idle
      · exact invariant.idle
  | check caller =>
      simp only [World.step, World.act]
      split
      · split
        · exact invariant.check ‹_› ‹_›
        · exact invariant.idle
      · exact invariant.idle
  | begin caller =>
      simp only [World.step, World.act]
      split
      · split
        · exact invariant.begin ‹_› ‹_›
        · exact invariant.idle
      · exact invariant.idle
  | start number =>
      simp only [World.step, World.act]
      split
      · rename_i resolve found
        split
        · rename_i queued
          have ok := invariant.resolves resolve (List.mem_of_getElem? found)
          rw [Option.isNone_iff_eq_none] at queued
          refine invariant.grow found ⟨rfl, rfl, rfl, fun time ran => ?_, fun _ => id⟩ ?_ (by simp)
          · rw [queued] at ran
            cases ran
          · intro time now
            cases now
            exact ok.beganAt
        · exact invariant.idle
      · exact invariant.idle
  | finish number outcome =>
      simp only [World.step, World.act]
      split
      · rename_i resolve found
        split
        · rename_i running
          simp only [Bool.and_eq_true, Option.isNone_iff_eq_none] at running
          refine invariant.grow found ⟨rfl, rfl, rfl, fun _ => id, fun _ ended => ?_⟩
            (invariant.resolves resolve (List.mem_of_getElem? found)).started fun _ => running.1
          rw [running.2] at ended
          cases ended
        · exact invariant.idle
      · exact invariant.idle
  | resume caller =>
      simp only [World.step, World.act]
      split
      · split
        · split
          · exact invariant.resume ‹_› ‹_› ‹_›
          · exact invariant.idle
        · exact invariant.idle
      · exact invariant.idle
  | drop caller =>
      simp only [World.step, World.act]
      split
      · exact invariant.drop ‹_›
      · exact invariant.idle

end Invariant

namespace World

variable {W G : Type} [DecidableEq W]

theorem invariant_after (events : List (Event W G)) : Invariant (after events) :=
  Execution.run_always step Invariant (fun _ event invariant => invariant.step event) .init events

/-- Some caller waits for the resolve. -/
def WaitedFor (world : World W G) (number : Nat) : Prop :=
  ∃ call ∈ world.calls, ∃ asked began, call.phase = .resolving asked began number

/-- Whatever callers ask, wait and are dropped, an answer is the result of a resolve of the caller's
workspace that was first run after the caller asked, and no two resolves of a workspace that are
waited for are begun at once. -/
theorem resolve_shared (events : List (Event W G)) :
    (∀ call ∈ (after events).calls, ∀ answer, call.phase = .answered answer →
      Fresh (after events) call answer) ∧
    ∀ (first second : Nat) (resolve other : Resolve W G),
      (after events).resolves[first]? = some resolve →
      (after events).resolves[second]? = some other → resolve.workspace = other.workspace →
      (after events).WaitedFor first → (after events).WaitedFor second → first = second := by
  have invariant := invariant_after events
  refine ⟨fun call member answer given => ?_, ?_⟩
  · obtain ⟨caller, found⟩ := List.getElem?_of_mem member
    exact (invariant.calls caller call found).answered answer given
  · intro first second resolve other found also same
    rintro ⟨call, member, asked, began, phase⟩ ⟨rival, listed, before, ticket, rivals⟩
    obtain ⟨caller, there⟩ := List.getElem?_of_mem member
    obtain ⟨second', here⟩ := List.getElem?_of_mem listed
    have ok := invariant.calls caller call there
    have rivalOk := invariant.calls second' rival here
    obtain ⟨-, mine, mineFound, own, -⟩ := ok.resolving asked began first phase
    obtain ⟨-, theirs, theirsFound, theirOwn, -⟩ := rivalOk.resolving before ticket second rivals
    obtain rfl := Option.some.inj (mineFound.symm.trans found)
    obtain rfl := Option.some.inj (theirsFound.symm.trans also)
    -- both have the turn of one workspace, so they are one caller
    have turn := ok.turn (by rw [phase]; trivial)
    have rivalTurn := rivalOk.turn (by rw [rivals]; trivial)
    rw [← own, same, theirOwn, rivalTurn] at turn
    obtain rfl := Option.some.inj turn
    obtain rfl := Option.some.inj (there.symm.trans here)
    rw [phase] at rivals
    cases rivals
    rfl

end World
end SharedResolve
end Fghj
