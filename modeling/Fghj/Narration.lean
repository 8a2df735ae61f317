import Mathlib.Data.List.Induction
import Mathlib.Data.List.Sort

/-!
# The narration of actions

What an action does is narrated step by step, in one table for all nodes and all actions. Beginning
an action again replaces its narration. The pane shows a row for every time a step was run: it
spins until the step ends. Whoever calls off a start closes the steps that it left running.
-/

namespace Fghj
namespace Narration

/-! ## The table -/

structure EventEntry where
  seq : Nat
  ts : Nat
  step : String
  status : String
  detail : Option String
  deriving DecidableEq

structure Row where
  nodeId : String
  action : String
  entry : EventEntry
  deriving DecidableEq

/-- What no two rows share. -/
def Row.key (row : Row) : String × String × Nat := (row.nodeId, row.action, row.entry.seq)

def Row.isOf (row : Row) (nodeId action : String) : Bool :=
  row.nodeId == nodeId && row.action == action

abbrev Table := List Row

/-- What is told of a step. -/
structure Note where
  ts : Nat
  step : String
  status : String
  detail : Option String := none
  deriving DecidableEq

def Note.numbered (note : Note) (seq : Nat) : EventEntry :=
  { seq, ts := note.ts, step := note.step, status := note.status, detail := note.detail }

namespace Table

variable (table : Table) (nodeId action : String)

def beginEventCycle : Table := table.filter fun row => !row.isOf nodeId action

/-- `COALESCE(MAX(seq) + 1, 0)` -/
def nextSeq : Nat :=
  ((table.filter fun row => row.isOf nodeId action).map fun row => row.entry.seq).max?.elim 0
    (· + 1)

/-- Nothing if there is such a row already. -/
def appendEvent (note : Note) : Option Table :=
  let row : Row := { nodeId, action, entry := note.numbered (table.nextSeq nodeId action) }
  if table.any fun held => held.key == row.key then none else some (table ++ [row])

def listEvents : List EventEntry :=
  ((table.filter fun row => row.isOf nodeId action).map Row.entry).insertionSort fun one other =>
    one.seq ≤ other.seq

end Table

/-! ## Telling -/

/-- What is done to the table. -/
inductive Event where
  | begin (nodeId action : String)
  | record (nodeId action : String) (note : Note)
  /-- A write that fails, which is reported and nothing else. -/
  | fails

def step (table : Table) : Event → Table
  | .begin nodeId action => table.beginEventCycle nodeId action
  | .record nodeId action note => (table.appendEvent nodeId action note).getD table
  | .fails => table

/-- What an event tells of an action of a node. -/
def tell (nodeId action : String) (notes : List Note) : Event → List Note
  | .begin node other => if node = nodeId ∧ other = action then [] else notes
  | .record node other note => if node = nodeId ∧ other = action then notes ++ [note] else notes
  | .fails => notes

/-- What has been told of an action of a node since it last began. -/
def told (nodeId action : String) (events : List Event) : List Note :=
  events.foldl (tell nodeId action) []

/-- The events of an action of a node after all that was done. -/
def listed (events : List Event) (nodeId action : String) : List EventEntry :=
  (events.foldl step []).listEvents nodeId action

/-- Notes as they are listed. -/
def numbered (notes : List Note) : List EventEntry :=
  notes.zipIdx.map fun note => note.1.numbered note.2

/-! ## The pane -/

structure Pane where
  rows : List EventEntry := []
  /-- The row of a step that is still running. -/
  running : String → Option Nat := fun _ => none

/-- One event: the outcome of a step replaces its spinner, and the time stays when it started. -/
def Pane.show (pane : Pane) (entry : EventEntry) : Pane :=
  match pane.running entry.step with
  | some i =>
      { rows := pane.rows.modify i fun row => { entry with ts := row.ts, seq := row.seq }
        running :=
          if entry.status = "running" then pane.running
          else Function.update pane.running entry.step none }
  | none =>
      { rows := pane.rows ++ [entry]
        running :=
          if entry.status = "running" then
            Function.update pane.running entry.step (some pane.rows.length)
          else pane.running }

def eventRows (events : List EventEntry) : List EventEntry := (events.foldl Pane.show {}).rows

/-! ## Calling off -/

/-- The steps that are still running. -/
def openSteps (events : List EventEntry) : List String :=
  events.foldl (fun steps entry =>
    let steps := steps.filter fun step => step != entry.step
    if entry.status = "running" then steps ++ [entry.step] else steps) []

/-- What is recorded of a step that a called-off start left running. -/
def calledOff (ts : Nat) (step : String) : Note :=
  { ts, step, status := "cancelled", detail := some "called off" }

/-- A row whose step was called off while it ran. -/
def EventEntry.close (row : EventEntry) : EventEntry :=
  if row.status = "running" then { row with status := "cancelled", detail := some "called off" }
  else row

/-- Whether an event is of an action of a node. -/
def Event.isOf (nodeId action : String) : Event → Bool
  | .begin node other => node == nodeId && other == action
  | .record node other _ => node == nodeId && other == action
  | .fails => false

/-! ## What is listed -/

section Listed

variable {table : Table} {nodeId action : String} {notes : List Note}

/-- The rows of an action are its notes, numbered from nought. -/
def Table.Tells (table : Table) (nodeId action : String) (notes : List Note) : Prop :=
  (table.filter fun row => row.isOf nodeId action).map Row.entry = numbered notes

theorem numbered_append (notes more : List Note) :
    numbered (notes ++ more) = numbered notes ++
      (more.zipIdx notes.length).map fun note => note.1.numbered note.2 := by
  rw [numbered, numbered, List.zipIdx_append, List.map_append, Nat.zero_add]

theorem seq_numbered (notes : List Note) :
    (numbered notes).map EventEntry.seq = List.range notes.length := by
  induction notes using List.reverseRecOn with
  | nil => rfl
  | append_singleton notes note ih =>
      rw [numbered_append, List.map_append, ih, List.length_append, List.length_singleton,
        List.range_succ]
      rfl

theorem Table.Tells.nextSeq (tells : table.Tells nodeId action notes) :
    table.nextSeq nodeId action = notes.length := by
  have seqs : (table.filter fun row => row.isOf nodeId action).map (fun row => row.entry.seq) =
      List.range notes.length := by
    rw [← seq_numbered, ← tells, List.map_map]
    rfl
  rw [Table.nextSeq, seqs]
  cases notes.length with
  | zero => rfl
  | succ n =>
      have greatest : (List.range (n + 1)).max? = some n := by
        rw [List.max?_eq_some_iff]
        refine ⟨by simp, fun other listed => ?_⟩
        have := List.mem_range.mp listed
        omega
      rw [greatest]
      rfl

/-- The next number is free. -/
theorem Table.Tells.append (tells : table.Tells nodeId action notes) (note : Note) :
    table.appendEvent nodeId action note =
      some (table ++ [{ nodeId, action, entry := note.numbered notes.length }]) := by
  have free : (table.any fun held => held.key ==
      Row.key { nodeId, action, entry := note.numbered notes.length }) = false := by
    rw [List.any_eq_false]
    intro held member taken
    obtain ⟨node, other, seq⟩ : held.nodeId = nodeId ∧ held.action = action ∧
        held.entry.seq = notes.length := by simpa [Row.key, Note.numbered] using taken
    have listed : held.entry ∈ numbered notes := by
      rw [← tells]
      exact List.mem_map_of_mem (List.mem_filter.mpr ⟨member, by simp [Row.isOf, node, other]⟩)
    have small := List.mem_map_of_mem (f := EventEntry.seq) listed
    rw [seq_numbered, List.mem_range, seq] at small
    omega
  rw [Table.appendEvent]
  simp only [tells.nextSeq, free]
  rfl

/-- Notes are listed in the order they were told in. -/
theorem Table.Tells.listEvents (tells : table.Tells nodeId action notes) :
    table.listEvents nodeId action = numbered notes := by
  rw [Table.listEvents, tells]
  refine List.Pairwise.insertionSort_eq ?_
  have sorted : ((numbered notes).map EventEntry.seq).Pairwise (· ≤ ·) := by
    rw [seq_numbered]
    exact List.pairwise_le_range
  exact List.pairwise_map.mp sorted

theorem isOf_iff {row : Row} : row.isOf nodeId action = true ↔
    row.nodeId = nodeId ∧ row.action = action := by
  simp [Row.isOf]

theorem Table.Tells.begin {node other : String} (tells : table.Tells nodeId action notes) :
    (table.beginEventCycle node other).Tells nodeId action
      (if node = nodeId ∧ other = action then [] else notes) := by
  rw [Table.Tells, Table.beginEventCycle, List.filter_filter]
  split
  · rename_i same
    obtain ⟨rfl, rfl⟩ := same
    have none : (table.filter fun row => row.isOf node other && !row.isOf node other) = [] := by
      simp
    rw [none]
    rfl
  · rename_i apart
    rw [← tells]
    congr 1
    refine List.filter_congr fun row _ => ?_
    cases here : row.isOf nodeId action with
    | false => rfl
    | true =>
        have elsewhere : row.isOf node other = false := by
          rw [Bool.eq_false_iff]
          intro there
          obtain ⟨rfl, rfl⟩ := isOf_iff.mp there
          exact apart (isOf_iff.mp here)
        rw [elsewhere]
        rfl

/-- An event tells every action of every node what concerns it. -/
theorem tells_step {notes : String → String → List Note}
    (tells : ∀ nodeId action, table.Tells nodeId action (notes nodeId action)) (event : Event)
    (nodeId action : String) :
    (step table event).Tells nodeId action (tell nodeId action (notes nodeId action) event) := by
  cases event with
  | begin node other => exact (tells nodeId action).begin
  | record node other note =>
      rw [step, (tells node other).append, Option.getD_some, tell, Table.Tells, List.filter_append,
        List.map_append, tells nodeId action]
      split
      · rename_i same
        obtain ⟨rfl, rfl⟩ := same
        rw [numbered_append]
        simp [Row.isOf]
      · rename_i apart
        simp [Row.isOf, apart]
  | fails => exact tells nodeId action

theorem tells_run (events : List Event) (nodeId action : String) :
    Table.Tells (events.foldl step []) nodeId action (told nodeId action events) := by
  induction events using List.reverseRecOn generalizing nodeId action with
  | nil => rfl
  | append_singleton events event ih =>
      rw [List.foldl_append, told, List.foldl_append]
      exact @tells_step _ (fun nodeId action => told nodeId action events) ih event nodeId action

end Listed

/-! ## What the pane shows of one step -/

/-- One more event of a step: a row that is running takes it, and else it begins a row. -/
def runStep (rows : List EventEntry) (entry : EventEntry) : List EventEntry :=
  match rows.getLast? with
  | some last =>
      if last.status = "running" then
        rows.dropLast ++ [{ entry with ts := last.ts, seq := last.seq }]
      else rows ++ [entry]
  | none => [entry]

/-- The runs of a step: one for each time it was started or told of anew. -/
def runs (events : List EventEntry) : List EventEntry := events.foldl runStep []

def EventEntry.isOf (entry : EventEntry) (step : String) : Bool := entry.step == step

def EventEntry.spins (entry : EventEntry) (step : String) : Bool :=
  entry.isOf step && entry.status == "running"

/-- The row a step is said to run in is the one that spins, and no row of the step comes after. -/
structure Pane.Sound (pane : Pane) : Prop where
  running : ∀ step i, pane.running step = some i ↔
    ∃ row, pane.rows[i]? = some row ∧ row.step = step ∧ row.status = "running"
  latest : ∀ step i, pane.running step = some i →
    ∀ k row, pane.rows[k]? = some row → row.step = step → k ≤ i

/-- Where a step's next event goes. -/
def Pane.place (pane : Pane) (step : String) : Nat := (pane.running step).getD pane.rows.length

/-- What goes there. -/
def Pane.shown (pane : Pane) (entry : EventEntry) : EventEntry :=
  match pane.rows[pane.place entry.step]? with
  | some row => { entry with ts := row.ts, seq := row.seq }
  | none => entry

section Shown

variable {pane : Pane}

theorem shown_step (entry : EventEntry) : (pane.shown entry).step = entry.step := by
  rw [Pane.shown]
  split <;> rfl

theorem shown_status (entry : EventEntry) : (pane.shown entry).status = entry.status := by
  rw [Pane.shown]
  split <;> rfl

variable {row : EventEntry}

theorem Pane.Sound.of_place (sound : pane.Sound) {step : String}
    (there : pane.rows[pane.place step]? = some row) :
    row.step = step ∧ row.status = "running" := by
  rw [Pane.place] at there
  cases spins : pane.running step with
  | some i =>
      obtain ⟨held, found, same, running⟩ := (sound.running step i).mp spins
      simp only [spins, Option.getD_some, found, Option.some.injEq] at there
      subst there
      exact ⟨same, running⟩
  | none => simp [spins] at there

theorem Pane.Sound.le_place (sound : pane.Sound) {k : Nat} (there : pane.rows[k]? = some row) :
    k ≤ pane.place row.step := by
  rw [Pane.place]
  cases spins : pane.running row.step with
  | some i => exact sound.latest row.step i spins k row there rfl
  | none =>
      obtain ⟨inside, -⟩ := List.getElem?_eq_some_iff.mp there
      exact inside.le

theorem Pane.Sound.eq_place (sound : pane.Sound) {k : Nat} (there : pane.rows[k]? = some row)
    (running : row.status = "running") : k = pane.place row.step := by
  rw [Pane.place, (sound.running row.step k).mpr ⟨row, there, rfl, running⟩, Option.getD_some]

theorem Pane.show_running (pane : Pane) (entry : EventEntry) :
    (pane.show entry).running = Function.update pane.running entry.step
      (if entry.status = "running" then some (pane.place entry.step) else none) := by
  rw [Pane.show, Pane.place]
  cases spins : pane.running entry.step with
  | some i =>
      simp only [Option.getD_some]
      split
      · rw [← spins, Function.update_eq_self]
      · rfl
  | none =>
      simp only [Option.getD_none]
      split
      · rfl
      · rw [← spins, Function.update_eq_self]

theorem Pane.Sound.show_rows (sound : pane.Sound) (entry : EventEntry) :
    (pane.show entry).rows = pane.rows.take (pane.place entry.step) ++
      pane.shown entry :: pane.rows.drop (pane.place entry.step + 1) := by
  rw [Pane.show, Pane.shown, Pane.place]
  cases spins : pane.running entry.step with
  | some i =>
      obtain ⟨row, found, -⟩ := (sound.running entry.step i).mp spins
      obtain ⟨inside, rfl⟩ := List.getElem?_eq_some_iff.mp found
      simp only [Option.getD_some, found]
      exact List.modify_eq_take_cons_drop inside
  | none => simp

theorem Pane.Sound.getElem?_show (sound : pane.Sound) (entry : EventEntry) (k : Nat) :
    (pane.show entry).rows[k]? =
      if k = pane.place entry.step then some (pane.shown entry) else pane.rows[k]? := by
  have within : pane.place entry.step ≤ pane.rows.length := by
    rw [Pane.place]
    cases spins : pane.running entry.step with
    | some i =>
        obtain ⟨row, found, -⟩ := (sound.running entry.step i).mp spins
        obtain ⟨inside, -⟩ := List.getElem?_eq_some_iff.mp found
        exact inside.le
    | none => rfl
  rw [sound.show_rows]
  grind

/-- Whatever comes in, one row spins for each step that is running. -/
theorem Pane.Sound.show (sound : pane.Sound) (entry : EventEntry) : (pane.show entry).Sound where
  running step i := by
    rw [Pane.show_running, sound.getElem?_show]
    by_cases own : step = entry.step
    · subst own
      rw [Function.update_self]
      by_cases here : i = pane.place entry.step
      · subst here
        simp [shown_step, shown_status]
      · have elsewhere : pane.running entry.step ≠ some i := by
          intro spins
          exact here (by rw [Pane.place, spins, Option.getD_some])
        have other := mt (sound.running entry.step i).mpr elsewhere
        simp only [here, if_false, other, iff_false]
        split
        · exact fun same => here (Option.some.inj same).symm
        · simp
    · rw [Function.update_of_ne own, sound.running]
      split
      · rename_i here
        subst here
        constructor
        · rintro ⟨row, there, of, -⟩
          exact absurd (of.symm.trans (sound.of_place there).1) own
        · rintro ⟨row, there, of, -⟩
          rw [← Option.some.inj there, shown_step] at of
          exact absurd of.symm own
      · rfl
  latest step i spins k row there of := by
    subst of
    rw [Pane.show_running] at spins
    rw [sound.getElem?_show] at there
    by_cases own : row.step = entry.step
    · rw [own, Function.update_self] at spins
      have here : pane.place entry.step = i := by
        split at spins
        · exact Option.some.inj spins
        · cases spins
      split at there
      · omega
      · have := sound.le_place there
        rw [own] at this
        omega
    · rw [Function.update_of_ne own] at spins
      split at there
      · rw [← Option.some.inj there, shown_step] at own
        exact absurd rfl own
      · exact sound.latest row.step i spins k row there rfl

theorem sound_run (events : List EventEntry) : (events.foldl Pane.show {}).Sound := by
  induction events using List.reverseRecOn with
  | nil => exact ⟨by simp, by simp⟩
  | append_singleton events entry ih =>
      rw [List.foldl_append]
      exact ih.show entry

theorem Pane.Sound.after_place (sound : pane.Sound) (step : String) :
    (pane.rows.drop (pane.place step + 1)).filter (·.isOf step) = [] := by
  rw [List.filter_eq_nil_iff]
  intro row behind of
  obtain ⟨k, there⟩ := List.mem_iff_getElem?.mp behind
  rw [List.getElem?_drop] at there
  have before := sound.le_place there
  rw [beq_iff_eq.mp of] at before
  omega

theorem Pane.Sound.rests (sound : pane.Sound) {step : String}
    (free : pane.rows[pane.place step]? = none) :
    ∀ row ∈ pane.rows, row.step = step → row.status ≠ "running" := by
  intro row listed of running
  obtain ⟨k, there⟩ := List.mem_iff_getElem?.mp listed
  rw [sound.eq_place there running, of, free] at there
  cases there

/-- What the pane shows of a step is what it would show were there no other. -/
theorem Pane.Sound.show_filter (sound : pane.Sound) (entry : EventEntry) (step : String) :
    (pane.show entry).rows.filter (·.isOf step) =
      if entry.isOf step then runStep (pane.rows.filter (·.isOf step)) entry
      else pane.rows.filter (·.isOf step) := by
  have held : pane.rows.filter (·.isOf step) =
      (pane.rows.take (pane.place entry.step)).filter (·.isOf step) ++
        pane.rows[pane.place entry.step]?.toList.filter (·.isOf step) ++
          (pane.rows.drop (pane.place entry.step + 1)).filter (·.isOf step) := by
    rw [← List.filter_append, ← List.filter_append, ← List.take_add_one, List.take_append_drop]
  rw [sound.show_rows, List.filter_append, List.filter_cons, EventEntry.isOf, shown_step,
    ← EventEntry.isOf]
  split
  · rename_i of
    obtain rfl : entry.step = step := beq_iff_eq.mp of
    rw [sound.after_place] at held ⊢
    cases there : pane.rows[pane.place entry.step]? with
    | some row =>
        have ⟨same, running⟩ := sound.of_place there
        have spins : pane.rows.filter (·.isOf entry.step) =
            (pane.rows.take (pane.place entry.step)).filter (·.isOf entry.step) ++ [row] := by
          simpa [there, EventEntry.isOf, same] using held
        simp [spins, runStep, running, Pane.shown, there]
    | none =>
        have done : pane.rows.filter (·.isOf entry.step) =
            (pane.rows.take (pane.place entry.step)).filter (·.isOf entry.step) := by
          simpa [there] using held
        rw [← done, runStep, Pane.shown, there]
        cases found : (pane.rows.filter (·.isOf entry.step)).getLast? with
        | some last =>
            have listed := List.mem_filter.mp (List.mem_of_getLast? found)
            have ended := sound.rests there last listed.1 (beq_iff_eq.mp listed.2)
            exact (if_neg ended).symm
        | none =>
            rw [List.getLast?_eq_none_iff.mp found]
            rfl
  · have elsewhere : pane.rows[pane.place entry.step]?.toList.filter (·.isOf step) = [] := by
      rw [List.filter_eq_nil_iff]
      intro row member of
      have there := Option.mem_toList.mp member
      rw [EventEntry.isOf, (sound.of_place there).1] at of
      contradiction
    rw [held, elsewhere, List.append_nil]

theorem shown_filter (events : List EventEntry) (step : String) :
    (eventRows events).filter (·.isOf step) = runs (events.filter (·.isOf step)) := by
  induction events using List.reverseRecOn with
  | nil => rfl
  | append_singleton events entry ih =>
      have kept := (sound_run events).show_filter entry step
      rw [eventRows, List.foldl_append, List.foldl_cons, List.foldl_nil, kept, ← eventRows, ih,
        runs, runs, List.filter_append, List.foldl_append]
      cases of : entry.isOf step with
      | true => simp [of]
      | false => simp [of]

/-- Rows are where their steps began. -/
theorem Pane.show_seqs (pane : Pane) (entry : EventEntry) :
    (pane.show entry).rows.map EventEntry.seq = pane.rows.map EventEntry.seq ∨
      (pane.show entry).rows.map EventEntry.seq = pane.rows.map EventEntry.seq ++ [entry.seq] := by
  rw [Pane.show]
  split
  · left
    refine List.ext_getElem? fun k => ?_
    rw [List.getElem?_map, List.getElem?_map, List.getElem?_modify]
    cases pane.rows[k]? with
    | some row =>
        simp only [Option.map_eq_map, Option.map_some]
        split <;> rfl
    | none => rfl
  · right
    simp

theorem shown_seqs (events : List EventEntry) :
    ((eventRows events).map EventEntry.seq).Sublist (events.map EventEntry.seq) := by
  induction events using List.reverseRecOn with
  | nil => exact .refl _
  | append_singleton events entry ih =>
      rw [eventRows, List.foldl_append, List.map_append]
      rcases (events.foldl Pane.show {}).show_seqs entry with same | more
      · exact same ▸ ih.trans (List.sublist_append_left _ _)
      · exact more ▸ ih.append (.refl _)

/-- A step is left running when its row spins. -/
theorem mem_openSteps (events : List EventEntry) (step : String) :
    step ∈ openSteps events ↔ ∃ i, (events.foldl Pane.show {}).running step = some i := by
  induction events using List.reverseRecOn with
  | nil => simp [openSteps]
  | append_singleton events entry ih =>
      rw [openSteps, List.foldl_append, List.foldl_append, List.foldl_cons, List.foldl_cons,
        List.foldl_nil, List.foldl_nil, Pane.show_running, ← openSteps]
      by_cases own : step = entry.step
      · subst own
        rw [Function.update_self]
        split <;> simp
      · rw [Function.update_of_ne own, ← ih]
        split <;> simp [own]

theorem openSteps_nodup (events : List EventEntry) : (openSteps events).Nodup := by
  induction events using List.reverseRecOn with
  | nil => exact List.nodup_nil
  | append_singleton events entry ih =>
      rw [openSteps, List.foldl_append, List.foldl_cons, List.foldl_nil, ← openSteps]
      have kept := ih.filter fun step => step != entry.step
      split
      · exact kept.append (List.nodup_singleton _) (by simp)
      · exact kept

theorem spins_iff {step : String} :
    row.spins step = true ↔ row.step = step ∧ row.status = "running" := by
  simp [EventEntry.spins, EventEntry.isOf]

/-- The one row that spins for a step, if there is one. -/
theorem Pane.Sound.spinning (sound : pane.Sound) (step : String) :
    pane.rows.filter (·.spins step) = pane.rows[pane.place step]?.toList := by
  have before : (pane.rows.take (pane.place step)).filter (·.spins step) = [] := by
    rw [List.filter_eq_nil_iff]
    intro row member spins
    obtain ⟨rfl, running⟩ := spins_iff.mp spins
    obtain ⟨k, there⟩ := List.mem_iff_getElem?.mp member
    rw [List.getElem?_take] at there
    split at there
    · have := sound.eq_place there running
      omega
    · cases there
  have after : (pane.rows.drop (pane.place step + 1)).filter (·.spins step) = [] := by
    rw [List.filter_eq_nil_iff]
    intro row member spins
    exact List.filter_eq_nil_iff.mp (sound.after_place step) row member
      (Bool.and_eq_true_iff.mp spins).1
  calc pane.rows.filter (·.spins step)
      = (pane.rows.take (pane.place step + 1) ++ pane.rows.drop (pane.place step + 1)).filter
          (·.spins step) := by rw [List.take_append_drop]
    _ = pane.rows[pane.place step]?.toList.filter (·.spins step) := by
        rw [List.filter_append, after, List.take_add_one, List.filter_append, before]
        simp
    _ = pane.rows[pane.place step]?.toList := by
        refine List.filter_eq_self.mpr fun row member => spins_iff.mpr ?_
        exact sound.of_place (Option.mem_toList.mp member)

theorem spinning_length (events : List EventEntry) (step : String) :
    ((eventRows events).filter (·.spins step)).length =
      if step ∈ openSteps events then 1 else 0 := by
  have sound := sound_run events
  rw [eventRows, sound.spinning]
  split
  · rename_i left
    obtain ⟨i, spins⟩ := (mem_openSteps events step).mp left
    obtain ⟨row, there, -⟩ := (sound.running step i).mp spins
    rw [Pane.place, spins, Option.getD_some, there]
    rfl
  · rename_i ended
    have rests : (events.foldl Pane.show {}).running step = none := by
      rw [Option.eq_none_iff_forall_ne_some]
      exact fun i spins => ended ((mem_openSteps events step).mpr ⟨i, spins⟩)
    rw [Pane.place, rests, Option.getD_none, List.getElem?_length]
    rfl

/-- One step that is called off. -/
theorem Pane.Sound.show_close (sound : pane.Sound) {entry : EventEntry} {i : Nat}
    (spins : pane.running entry.step = some i) (status : entry.status = "cancelled")
    (detail : entry.detail = some "called off") :
    (pane.show entry).rows =
      pane.rows.map fun row => if row.step = entry.step then row.close else row := by
  have here : pane.place entry.step = i := by rw [Pane.place, spins, Option.getD_some]
  obtain ⟨held, found, same, running⟩ := (sound.running entry.step i).mp spins
  refine List.ext_getElem? fun k => ?_
  rw [sound.getElem?_show, List.getElem?_map, here]
  split
  · rename_i at_place
    subst at_place
    rw [found, Pane.shown, here, found]
    simp [EventEntry.close, same, running, status, detail]
  · rename_i elsewhere
    cases there : pane.rows[k]? with
    | some row =>
        have rests : row.step = entry.step → row.status ≠ "running" := by
          intro of running
          exact elsewhere (by rw [sound.eq_place there running, of, here])
        rw [Option.map_some]
        split
        · rename_i of
          rw [EventEntry.close, if_neg (rests of)]
        · rfl
    | none => rfl

theorem Pane.Sound.show_closes (sound : pane.Sound) (entries : List EventEntry)
    (once : (entries.map EventEntry.step).Nodup)
    (closes : ∀ entry ∈ entries, (∃ i, pane.running entry.step = some i) ∧
      entry.status = "cancelled" ∧ entry.detail = some "called off") :
    (entries.foldl Pane.show pane).rows =
      pane.rows.map fun row => if row.step ∈ entries.map EventEntry.step then row.close else
        row := by
  induction entries generalizing pane with
  | nil => simp
  | cons entry entries ih =>
      rw [List.map_cons, List.nodup_cons] at once
      obtain ⟨⟨i, spins⟩, status, detail⟩ := closes entry (.head _)
      have rest : ∀ other ∈ entries, (∃ i, (pane.show entry).running other.step = some i) ∧
          other.status = "cancelled" ∧ other.detail = some "called off" := by
        intro other member
        obtain ⟨⟨i, spins⟩, ends⟩ := closes other (.tail _ member)
        have apart : other.step ≠ entry.step := fun same =>
          once.1 (same ▸ List.mem_map_of_mem member)
        rw [Pane.show_running, Function.update_of_ne apart]
        exact ⟨⟨i, spins⟩, ends⟩
      rw [List.foldl_cons, ih (sound.show entry) once.2 rest, sound.show_close spins status detail,
        List.map_map]
      refine List.map_congr_left fun row _ => ?_
      by_cases own : row.step = entry.step
      · have closed : row.close.step = entry.step := by
          rw [EventEntry.close]
          split <;> exact own
        simp only [Function.comp_apply, own, if_true, closed, once.1, if_false, List.map_cons,
          List.mem_cons, true_or]
      · simp [own]

end Shown

/-! ## The pane of a run -/

theorem tell_filter (nodeId action : String) (notes : List Note) (events : List Event) :
    events.foldl (tell nodeId action) notes =
      (events.filter (·.isOf nodeId action)).foldl (tell nodeId action) notes := by
  induction events generalizing notes with
  | nil => rfl
  | cons event events ih =>
      rw [List.foldl_cons, ih, List.filter_cons]
      split
      · rfl
      · have elsewhere : tell nodeId action notes event = notes := by
          cases event with
          | begin node other => simp_all [Event.isOf, tell]
          | record node other note => simp_all [Event.isOf, tell]
          | fails => rfl
        rw [elsewhere]

/-- Whatever tasks begin and tell of whatever actions, no row takes another's number, an action's
rows are what was told of it since it last began, and the pane spins once for each step that was
last told to be running, with the rows in the order in which their steps began. -/
theorem pane_of_run (events : List Event) (nodeId action : String) :
    (∀ note, ∃ table, (events.foldl step []).appendEvent nodeId action note = some table) ∧
      listed events nodeId action = numbered (told nodeId action events) ∧
      ((eventRows (listed events nodeId action)).map EventEntry.seq).Pairwise (· < ·) ∧
      ∀ step, (eventRows (listed events nodeId action)).filter (·.isOf step) =
          runs ((listed events nodeId action).filter (·.isOf step)) ∧
        ((eventRows (listed events nodeId action)).filter (·.spins step)).length =
          if step ∈ openSteps (listed events nodeId action) then 1 else 0 := by
  have tells := tells_run events nodeId action
  have same : listed events nodeId action = numbered (told nodeId action events) := tells.listEvents
  refine ⟨fun note => ⟨_, tells.append note⟩, same, ?_, fun step => ?_⟩
  · refine List.Pairwise.sublist (shown_seqs _) ?_
    rw [same, seq_numbered]
    exact List.pairwise_lt_range
  · exact ⟨shown_filter _ step, spinning_length _ step⟩

theorem tell_records (nodeId action : String) (notes more : List Note) :
    (more.map (Event.record nodeId action)).foldl (tell nodeId action) notes = notes ++ more := by
  induction more generalizing notes with
  | nil => simp
  | cons note more ih => simp [tell, ih]

theorem close_over (row : EventEntry) : row.close.status ≠ "running" := by
  rw [EventEntry.close]
  split
  · simp
  · assumption

/-- The pane after the steps it shows running are all called off. -/
theorem eventRows_closes (listed entries : List EventEntry)
    (all : entries.map EventEntry.step = openSteps listed)
    (closes : ∀ entry ∈ entries, entry.status = "cancelled" ∧ entry.detail = some "called off") :
    eventRows (listed ++ entries) = (eventRows listed).map EventEntry.close := by
  have sound := sound_run listed
  rw [eventRows, List.foldl_append, sound.show_closes entries (all ▸ openSteps_nodup listed)]
  · refine List.map_congr_left fun row member => ?_
    rw [all]
    split
    · rfl
    · rename_i ended
      rw [EventEntry.close, if_neg]
      intro running
      obtain ⟨k, there⟩ := List.mem_iff_getElem?.mp member
      exact ended ((mem_openSteps listed row.step).mpr
        ⟨k, (sound.running row.step k).mpr ⟨row, there, rfl, running⟩⟩)
  · intro entry member
    have left : entry.step ∈ openSteps listed := all ▸ List.mem_map_of_mem member
    exact ⟨(mem_openSteps listed entry.step).mp left, closes entry member⟩

/-- Calling off a start, whatever else is told meanwhile, ends the rows that spin and no other, and
leaves them where they are, at the times when their steps began. -/
theorem called_off_pane (events later : List Event) (nodeId : String) (ends : List (Nat × String))
    (all : ends.map Prod.snd = openSteps (listed events nodeId "start"))
    (closes : later.filter (·.isOf nodeId "start") =
      ends.map fun close => .record nodeId "start" (calledOff close.1 close.2)) :
    eventRows (listed (events ++ later) nodeId "start") =
        (eventRows (listed events nodeId "start")).map EventEntry.close ∧
      openSteps (listed (events ++ later) nodeId "start") = [] := by
  have before : listed events nodeId "start" = _ := (tells_run events nodeId "start").listEvents
  have notes : told nodeId "start" (events ++ later) =
      told nodeId "start" events ++ ends.map fun close => calledOff close.1 close.2 := by
    rw [told, List.foldl_append, tell_filter nodeId "start" _ later, closes, ← told,
      ← tell_records nodeId, List.map_map]
    rfl
  have after : listed (events ++ later) nodeId "start" = _ :=
    (tells_run (events ++ later) nodeId "start").listEvents
  rw [notes, numbered_append, ← before] at after
  have shown : eventRows (listed (events ++ later) nodeId "start") =
      (eventRows (listed events nodeId "start")).map EventEntry.close := by
    rw [after]
    refine eventRows_closes _ _ ?_ ?_
    · calc _ = (((ends.map fun close => calledOff close.1 close.2).zipIdx
            (told nodeId "start" events).length).map Prod.fst).map Note.step := by
            rw [List.map_map, List.map_map]
            rfl
        _ = _ := by
            rw [List.zipIdx_map_fst, List.map_map, ← all]
            rfl
    · intro entry member
      obtain ⟨⟨note, k⟩, told, rfl⟩ := List.mem_map.mp member
      obtain ⟨close, -, rfl⟩ := List.mem_map.mp (List.fst_mem_of_mem_zipIdx told)
      exact ⟨rfl, rfl⟩
  refine ⟨shown, List.eq_nil_iff_forall_not_mem.mpr fun step left => ?_⟩
  obtain ⟨i, spins⟩ := (mem_openSteps _ step).mp left
  obtain ⟨row, there, -, running⟩ := ((sound_run _).running step i).mp spins
  have member := List.mem_of_getElem? there
  rw [← eventRows, shown] at member
  obtain ⟨held, -, rfl⟩ := List.mem_map.mp member
  exact close_over held running

/-- A start whose one step has ended, and that builds an image while it waits for a database. -/
def cartStart : List Event :=
  [.begin "cart" "start", .record "cart" "start" ⟨6, "cloning", "running", none⟩,
    .record "cart" "start" ⟨7, "building image", "running", none⟩,
    .record "cart" "start" ⟨8, "cloning", "done", none⟩,
    .record "cart" "start" ⟨8, "waiting for db", "running", none⟩]

theorem called_off_pane_cart :
    let later := [Event.begin "cart" "stop", .record "cart" "start" (calledOff 9 "building image"),
      .fails, .record "cart" "start" (calledOff 9 "waiting for db")]
    eventRows (listed (cartStart ++ later) "cart" "start") =
        (eventRows (listed cartStart "cart" "start")).map EventEntry.close ∧
      openSteps (listed (cartStart ++ later) "cart" "start") = [] :=
  called_off_pane _ _ "cart" [(9, "building image"), (9, "waiting for db")] (by decide) rfl

end Narration
end Fghj
