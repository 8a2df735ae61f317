import Fghj.LogCapture

/-!
# Captured logs are kept

As long as no generation begins under the number of a capture that may still insert, every capture
has a generation of its own. Its lines are all stored, are kept until two later generations have
begun, and are read in pages in the order they came.
-/

namespace Fghj
namespace Logs

/-- The lines a capture has inserted so far. -/
def System.linesBy (system : System) (number : Nat) : List LogLine :=
  (system.inserted.filter fun entry => entry.1 == number).map fun entry => entry.2.line

variable {row : Row}

theorem System.mem_linesBy {system : System} {number : Nat}
    (member : (number, row) ∈ system.inserted) : row.line ∈ system.linesBy number :=
  List.mem_map.mpr ⟨_, List.mem_filter.mpr ⟨member, beq_self_eq_true number⟩, rfl⟩

/-- The capture of a number has inserted rows or may do so. -/
def System.Writes (system : System) (number : Nat) (capture : Capture) : Prop :=
  capture.mayInsert ∨ ∃ row, (number, row) ∈ system.inserted

/-- The captures write under generations of their own, and what they have inserted is kept. -/
structure Sound (system : System) : Prop where
  /-- Under the generation of a capture that may insert stand only the rows it inserted. -/
  owned : ∀ (number : Nat) (capture : Capture), system.captures[number]? = some capture →
    capture.mayInsert → ∀ row ∈ system.table.rows, row.nodeId = capture.nodeId →
      row.generation = capture.generation → (number, row) ∈ system.inserted
  /-- What was inserted is of the generation of its capture. -/
  writers : ∀ (number : Nat) (row : Row), (number, row) ∈ system.inserted →
    ∃ capture, system.captures[number]? = some capture ∧ capture.begun ∧
      row.nodeId = capture.nodeId ∧ row.generation = capture.generation
  stored : ∀ (number : Nat) (row : Row), (number, row) ∈ system.inserted →
    system.table.Stored row.nodeId row.generation
  apart : ∀ (one other : Nat) (capture foreign : Capture),
    system.captures[one]? = some capture → system.captures[other]? = some foreign →
    system.Writes one capture → system.Writes other foreign →
    capture.nodeId = foreign.nodeId → capture.generation = foreign.generation → one = other
  numbered : ∀ (number : Nat) (capture : Capture), system.captures[number]? = some capture →
    Numbered (system.linesBy number ++ capture.pending) capture.buffer capture.seq
  kept : ∀ (number : Nat) (row : Row), (number, row) ∈ system.inserted →
    row ∈ system.table.rows ∨ system.Superseded row.nodeId row.generation
  begun : ∀ row ∈ system.table.rows, (row.nodeId, row.generation) ∈ system.begun
  given : ∀ (number : Nat) (capture : Capture), system.captures[number]? = some capture →
    capture.mayInsert → (capture.nodeId, capture.generation) ∈ system.begun
  ignored : system.ignored = []

theorem sound_start (table : LogTable) : Sound (start table) where
  owned _ _ found := by cases found
  writers _ _ member := by cases member
  stored _ _ member := by cases member
  apart _ _ _ _ found := by cases found
  numbered _ _ found := by cases found
  kept _ _ member := by cases member
  begun _ member := List.mem_map_of_mem member
  given _ _ found := by cases found
  ignored := rfl

variable {nodeId : String}

section Steps

variable {system next : System} {number : Nat} {capture : Capture}

theorem Quiet.linesBy (quiet : Quiet system next) : next.linesBy = system.linesBy := by
  funext number
  rw [System.linesBy, System.linesBy, quiet.inserted]

theorem Quiet.writes (quiet : Quiet system next) {before after : Capture}
    (advances : Advances before after) (writes : next.Writes number after) :
    system.Writes number before :=
  writes.imp advances.mayInsert fun ⟨row, member⟩ => ⟨row, quiet.inserted ▸ member⟩

theorem System.Superseded.mono {generation : Int}
    (more : ∀ begun ∈ system.begun, begun ∈ next.begun)
    (superseded : system.Superseded nodeId generation) : next.Superseded nodeId generation := by
  obtain ⟨one, one_begun, other, other_begun, rest⟩ := superseded
  exact ⟨one, more one one_begun, other, more other other_begun, rest⟩

theorem numbered_nil (seq : Int) : Numbered [] [] seq :=
  ⟨List.Pairwise.nil, fun _ member => by cases member⟩

/-- A capture that has only been spawned writes nothing. -/
theorem Sound.spawned_idle (sound : Sound system) (absent : system.captures[number]? = none)
    (quiet : Quiet system next) : ¬next.Writes number { nodeId } := by
  rintro (may | ⟨row, member⟩)
  · cases may
  · rw [quiet.inserted] at member
    obtain ⟨capture, found, -⟩ := sound.writers number row member
    rw [absent] at found
    cases found

theorem Sound.quiet (sound : Sound system) (quiet : Quiet system next) : Sound next where
  owned number after found may row member node generation := by
    rw [quiet.inserted]
    rcases quiet.captures number after found with ⟨before, there, advances⟩ | ⟨-, nodeId, rfl⟩
    · exact sound.owned number before there (advances.mayInsert may) row (quiet.table ▸ member)
        (node.trans advances.nodeId) (generation.trans advances.generation)
    · cases may
  writers number row member := by
    obtain ⟨before, there, begun, node, generation⟩ :=
      sound.writers number row (quiet.inserted ▸ member)
    obtain ⟨after, found⟩ := quiet.stay number before there
    rcases quiet.captures number after found with ⟨same, here, advances⟩ | ⟨absent, -⟩
    · rw [there] at here
      cases here
      exact ⟨after, found, advances.begun begun, node.trans advances.nodeId.symm,
        generation.trans advances.generation.symm⟩
    · rw [absent] at there
      cases there
  stored number row member := quiet.table ▸ sound.stored number row (quiet.inserted ▸ member)
  apart one other after foreign found elsewhere writes foreign_writes node generation := by
    rcases quiet.captures one after found with ⟨before, there, advances⟩ | ⟨absent, nodeId, rfl⟩
    · rcases quiet.captures other foreign elsewhere with
        ⟨original, origin, moved⟩ | ⟨missing, nodeId, rfl⟩
      · refine sound.apart one other before original there origin (quiet.writes advances writes)
          (quiet.writes moved foreign_writes) ?_ ?_
        · rw [← advances.nodeId, node, moved.nodeId]
        · rw [← advances.generation, generation, moved.generation]
      · exact absurd foreign_writes (sound.spawned_idle missing quiet)
    · exact absurd writes (sound.spawned_idle absent quiet)
  numbered number after found := by
    rw [quiet.linesBy]
    rcases quiet.captures number after found with ⟨before, there, advances⟩ | ⟨absent, nodeId, rfl⟩
    · exact advances.numbered _ (sound.numbered number before there)
    · have nothing : system.linesBy number = [] := by
        rw [System.linesBy, List.map_eq_nil_iff, List.filter_eq_nil_iff]
        intro entry member same
        obtain ⟨capture, lookup, -⟩ := sound.writers entry.1 entry.2 member
        rw [beq_iff_eq.mp same, absent] at lookup
        cases lookup
      rw [nothing]
      exact numbered_nil 0
  kept number row member := by
    rw [quiet.table]
    exact (sound.kept number row (quiet.inserted ▸ member)).imp_right
      (System.Superseded.mono fun _ begun => quiet.begun ▸ begun)
  begun row member := quiet.begun ▸ sound.begun row (quiet.table ▸ member)
  given number after found may := by
    rcases quiet.captures number after found with ⟨before, there, advances⟩ | ⟨-, nodeId, rfl⟩
    · rw [quiet.begun, advances.nodeId, advances.generation]
      exact sound.given number before there (advances.mayInsert may)
    · cases may
  ignored := quiet.ignored.trans sound.ignored

/-! ## A generation begins -/

/-- No other capture that writes for the node has the number of the generation that begins. -/
def Fresh (system : System) (number : Nat) (nodeId : String) : Prop :=
  ∀ (other : Nat) (foreign : Capture), other ≠ number → system.captures[other]? = some foreign →
    system.Writes other foreign → foreign.nodeId = nodeId →
      foreign.generation < system.table.nextGeneration nodeId

/-- A capture that asks for its generation has inserted nothing. -/
theorem Sound.not_inserted (sound : Sound system) (begins : Begins system next number capture)
    (row : Row) : (number, row) ∉ system.inserted := by
  intro member
  obtain ⟨same, found, begun, -⟩ := sound.writers number row member
  rw [begins.found] at found
  cases found
  simp [Capture.begun, begins.beginning] at begun

theorem Sound.fresh (sound : Sound system) (begins : Begins system next number capture)
    (apart : system.beginsApart (.settle number true)) : Fresh system number capture.nodeId := by
  intro other foreign _ found writes node
  rcases writes with may | ⟨row, member⟩
  · simp only [System.beginsApart, begins.found, Option.all_some, begins.beginning,
      bne_self_eq_false, Bool.false_or, List.all_eq_true] at apart
    have here := apart foreign (List.mem_of_getElem? found)
    simpa [node, may] using here
  · obtain ⟨same, lookup, -, row_node, row_generation⟩ := sound.writers other row member
    rw [found] at lookup
    cases lookup
    have stored := (sound.stored other row member).lt_next
    rwa [row_node, row_generation, node] at stored

/-- Rows are deleted only when two later generations have begun. -/
theorem Begins.superseded (sound : Sound system) (begins : Begins system next number capture)
    (member : row ∈ system.table.rows) (node : row.nodeId = capture.nodeId) {generation : Int}
    (old : generation ≤ system.table.nextGeneration capture.nodeId - 2) :
    next.Superseded capture.nodeId generation := by
  rw [begins.next_eq]
  rcases system.table.nextGeneration_cases capture.nodeId with none_stored | ⟨last, held, of, eq, -⟩
  · exact absurd node (none_stored row member)
  · refine ⟨(last.nodeId, last.generation), List.mem_append_left _ (sound.begun last held),
      (capture.nodeId, system.table.nextGeneration capture.nodeId),
      List.mem_append_right _ (List.mem_singleton.mpr rfl), of, rfl, ?_, ?_⟩
    · change generation < last.generation
      omega
    · change last.generation < system.table.nextGeneration capture.nodeId
      omega

theorem Sound.begins (sound : Sound system) (begins : Begins system next number capture)
    (fresh : Fresh system number capture.nodeId) : Sound next := by
  have superseded {row : Row} (member : row ∈ system.table.rows)
      (node : row.nodeId = capture.nodeId) :=
    @Begins.superseded row system next number capture sound begins member node
  obtain rfl := begins.next_eq
  have lookup (other : Nat) (after : Capture)
      (found : (system.settleBegin number capture).captures[other]? = some after) :
      number = other ∧ after = ({ capture with
          generation := system.table.nextGeneration capture.nodeId }.resume .streaming) ∨
        number ≠ other ∧ system.captures[other]? = some after :=
    Slots.getElem?_set_cases found
  have subset (row : Row) (member : row ∈ (system.settleBegin number capture).table.rows) :
      row ∈ system.table.rows := (LogTable.mem_deleteUpTo.mp member).1
  have apart_from (other : Nat) (foreign : Capture) (different : number ≠ other)
      (found : system.captures[other]? = some foreign) (writes : system.Writes other foreign)
      (node : capture.nodeId = foreign.nodeId)
      (generation : system.table.nextGeneration capture.nodeId = foreign.generation) : False := by
    have less := fresh other foreign different.symm found writes node.symm
    omega
  refine ⟨fun other after found may row member node generation => ?_, fun other row member => ?_,
    fun other row member => ?_,
    fun one other after foreign found elsewhere writes foreign_writes node generation => ?_,
    fun other after found => ?_, fun other row member => ?_, fun row member => ?_,
    fun other after found may => ?_, sound.ignored⟩
  · rcases lookup other after found with ⟨rfl, rfl⟩ | ⟨-, same⟩
    · -- every stored row of the node is of a generation before the new one
      have before := (LogTable.stored_of_mem (subset row member)).lt_next
      change row.nodeId = capture.nodeId at node
      change row.generation = system.table.nextGeneration capture.nodeId at generation
      rw [node] at before
      omega
    · exact sound.owned other after same may row (subset row member) node generation
  · obtain ⟨writer, found, rest⟩ := sound.writers other row member
    have different : number ≠ other := by
      rintro rfl
      exact sound.not_inserted begins row member
    exact ⟨writer, (List.getElem?_set_ne different).trans found, rest⟩
  · exact (sound.stored other row member).begin
  · rcases lookup one after found with ⟨rfl, rfl⟩ | ⟨different, same⟩
    · rcases lookup other foreign elsewhere with ⟨same, -⟩ | ⟨different, there⟩
      · exact same
      · exact (apart_from other foreign different there foreign_writes node generation).elim
    · rcases lookup other foreign elsewhere with ⟨rfl, rfl⟩ | ⟨-, there⟩
      · exact (apart_from one after different same writes node.symm generation.symm).elim
      · exact sound.apart one other after foreign same there writes foreign_writes node generation
  · rcases lookup other after found with ⟨rfl, rfl⟩ | ⟨-, same⟩
    · have before := sound.numbered number capture begins.found
      have idle : capture.pending = [] := by rw [Capture.pending, begins.beginning]
      have still_idle : (({ capture with
          generation := system.table.nextGeneration capture.nodeId } : Capture).resume
            .streaming).pending = [] := by
        cases aborted : capture.aborted <;> simp [Capture.resume, Capture.pending]
      rw [idle] at before
      rw [still_idle]
      exact before
    · exact sound.numbered other after same
  · rcases sound.kept other row member with held | gone
    · by_cases deleted : row.nodeId = capture.nodeId ∧
          row.generation ≤ system.table.nextGeneration capture.nodeId - 2
      · exact .inr (deleted.1 ▸ superseded held deleted.1 deleted.2)
      · exact .inl (LogTable.mem_deleteUpTo.mpr ⟨held, deleted⟩)
    · exact .inr (gone.mono fun _ begun => List.mem_append_left _ begun)
  · exact List.mem_append_left _ (sound.begun row (subset row member))
  · rcases lookup other after found with ⟨rfl, rfl⟩ | ⟨-, same⟩
    · exact List.mem_append_right _ (List.mem_singleton.mpr rfl)
    · exact List.mem_append_left _ (sound.given other after same may)

/-! ## A batch is stored -/

section Inserts

variable {batch : List LogLine} {last : Bool}

/-- The rows a batch is stored as. -/
abbrev batchRows (capture : Capture) (batch : List LogLine) : List Row :=
  LogTable.rowsOf capture.nodeId capture.generation batch

/-- The lines of a batch are numbered after those the capture has inserted, one after the other. -/
theorem Inserts.batch_numbered (sound : Sound system)
    (inserts : Inserts system next number capture batch last) :
    Paging.Ascending LogLine.seq batch ∧
      ∀ line ∈ system.linesBy number, ∀ new ∈ batch, line.seq < new.seq := by
  have numbered := (sound.numbered number capture inserts.found).1
  rw [Capture.pending, inserts.inserting] at numbered
  have handed := (List.pairwise_append.mp numbered).1
  obtain ⟨-, ascending, behind⟩ := List.pairwise_append.mp handed
  exact ⟨ascending, behind⟩

/-- The rows of the generation that are stored already are numbered before the batch. -/
theorem Inserts.behind (sound : Sound system)
    (inserts : Inserts system next number capture batch last) (member : row ∈ system.table.rows)
    (node : row.nodeId = capture.nodeId) (generation : row.generation = capture.generation)
    {new : LogLine} (handed : new ∈ batch) : row.line.seq < new.seq := by
  have own := sound.owned number capture inserts.found (mayInsert_of_inserting inserts.inserting)
    row member node generation
  exact (inserts.batch_numbered sound).2 row.line (System.mem_linesBy own) new handed

/-- Every line of a batch is stored. -/
theorem Inserts.rows_eq (sound : Sound system)
    (inserts : Inserts system next number capture batch last) :
    (system.table.insertLogLines capture.nodeId capture.generation batch).rows =
        system.table.rows ++ batchRows capture batch ∧
      system.table.ignored (batchRows capture batch) = [] := by
  refine LogTable.foldl_insertOrIgnore ?_ fun row member => ?_
  · rw [LogTable.rowsOf, List.pairwise_map]
    refine (inserts.batch_numbered sound).1.imp fun {one other} less same => ?_
    rw [Row.key, Row.key, Prod.mk.injEq, Prod.mk.injEq] at same
    exact (Int.ne_of_lt less) same.2.2
  · obtain ⟨new, handed, rfl⟩ := List.mem_map.mp member
    rintro ⟨held, stored, same⟩
    rw [Row.key, Row.key, Prod.mk.injEq, Prod.mk.injEq] at same
    exact (Int.ne_of_lt (inserts.behind sound stored same.1 same.2.1 handed)) same.2.2

theorem Inserts.linesBy (inserts : Inserts system next number capture batch last) (other : Nat) :
    next.linesBy other = system.linesBy other ++ if number = other then batch else [] := by
  rw [inserts.next_eq]
  simp only [System.linesBy, System.settleInsert, LogTable.rowsOf, List.map_map, List.filter_append,
    List.map_append, List.append_cancel_left_eq]
  rw [List.filter_map, List.map_map]
  by_cases same : number = other
  · simp [Function.comp_def, same]
  · simp [Function.comp_def, same]

theorem of_mem_batchRows (member : row ∈ batchRows capture batch) :
    row.nodeId = capture.nodeId ∧ row.generation = capture.generation := by
  obtain ⟨line, -, rfl⟩ := List.mem_map.mp member
  exact ⟨rfl, rfl⟩

variable {other : Nat} {after : Capture}

theorem Inserts.captures (inserts : Inserts system next number capture batch last)
    (found : next.captures[other]? = some after) :
    number = other ∧ after = capture.resume (if last then .ended else .streaming) ∨
      number ≠ other ∧ system.captures[other]? = some after := by
  rw [inserts.next_eq] at found
  exact Slots.getElem?_set_cases found

theorem Inserts.mem_inserted (inserts : Inserts system next number capture batch last) :
    (other, row) ∈ next.inserted ↔
      (other, row) ∈ system.inserted ∨ number = other ∧ row ∈ batchRows capture batch := by
  simp only [inserts.next_eq, System.settleInsert, List.mem_append, List.mem_map, Prod.mk.injEq]
  constructor
  · rintro (before | ⟨held, member, rfl, rfl⟩)
    · exact .inl before
    · exact .inr ⟨rfl, member⟩
  · rintro (before | ⟨rfl, member⟩)
    · exact .inl before
    · exact .inr ⟨row, member, rfl, rfl⟩

theorem Inserts.mem_rows (sound : Sound system)
    (inserts : Inserts system next number capture batch last) :
    row ∈ next.table.rows ↔ row ∈ system.table.rows ∨ row ∈ batchRows capture batch := by
  simp only [inserts.next_eq, System.settleInsert, (inserts.rows_eq sound).1, List.mem_append]

theorem Inserts.begun (inserts : Inserts system next number capture batch last) :
    next.begun = system.begun := by
  rw [inserts.next_eq]
  rfl

/-- Whoever writes after a batch was stored wrote before. -/
theorem Inserts.wrote (inserts : Inserts system next number capture batch last)
    (found : next.captures[other]? = some after) (writes : next.Writes other after) :
    ∃ before, system.captures[other]? = some before ∧ system.Writes other before ∧
      after.nodeId = before.nodeId ∧ after.generation = before.generation := by
  rcases inserts.captures found with ⟨rfl, rfl⟩ | ⟨different, same⟩
  · exact ⟨capture, inserts.found, .inl (mayInsert_of_inserting inserts.inserting), rfl, rfl⟩
  · refine ⟨after, same, writes.imp_right fun ⟨row, member⟩ => ⟨row, ?_⟩, rfl, rfl⟩
    rcases inserts.mem_inserted.mp member with before | ⟨own, -⟩
    · exact before
    · exact absurd own different

/-- No two captures that write after a batch was stored share a generation. -/
theorem Inserts.apart (sound : Sound system)
    (inserts : Inserts system next number capture batch last) {one other : Nat}
    {after foreign : Capture} (found : next.captures[one]? = some after)
    (elsewhere : next.captures[other]? = some foreign) (writes : next.Writes one after)
    (foreign_writes : next.Writes other foreign) (node : after.nodeId = foreign.nodeId)
    (generation : after.generation = foreign.generation) : one = other := by
  obtain ⟨before, there, before_writes, before_node, before_generation⟩ :=
    inserts.wrote found writes
  obtain ⟨original, origin, original_writes, original_node, original_generation⟩ :=
    inserts.wrote elsewhere foreign_writes
  exact sound.apart one other before original there origin before_writes original_writes
    (by rw [← before_node, node, original_node])
    (by rw [← before_generation, generation, original_generation])

/-- The rows of a batch stand under the generation of the capture that stores it only. -/
theorem Inserts.owned (sound : Sound system)
    (inserts : Inserts system next number capture batch last)
    (found : next.captures[other]? = some after) (may : after.mayInsert)
    (member : row ∈ next.table.rows) (node : row.nodeId = after.nodeId)
    (generation : row.generation = after.generation) : (other, row) ∈ next.inserted := by
  obtain ⟨before, there, writes, before_node, before_generation⟩ := inserts.wrote found (.inl may)
  rw [before_node] at node
  rw [before_generation] at generation
  rcases (inserts.mem_rows sound).mp member with stored | new
  · have may_before : before.mayInsert := by
      rcases inserts.captures found with ⟨rfl, rfl⟩ | ⟨-, same⟩
      · rw [inserts.found] at there
        cases there
        exact mayInsert_of_inserting inserts.inserting
      · rw [same] at there
        cases there
        exact may
    exact inserts.mem_inserted.mpr
      (.inl (sound.owned other before there may_before row stored node generation))
  · obtain ⟨own_node, own_generation⟩ := of_mem_batchRows new
    have same := sound.apart number other capture before inserts.found there
      (.inl (mayInsert_of_inserting inserts.inserting)) writes (own_node.symm.trans node)
      (own_generation.symm.trans generation)
    exact inserts.mem_inserted.mpr (.inr ⟨same, new⟩)

/-- The lines of the batch are no longer pending once they are stored. -/
theorem Inserts.numbered (sound : Sound system)
    (inserts : Inserts system next number capture batch last)
    (found : next.captures[other]? = some after) :
    Numbered (next.linesBy other ++ after.pending) after.buffer after.seq := by
  rw [inserts.linesBy]
  rcases inserts.captures found with ⟨rfl, rfl⟩ | ⟨different, same⟩
  · have before := sound.numbered number capture inserts.found
    have none_pending : (capture.resume (if last then .ended else .streaming)).pending = [] := by
      cases aborted : capture.aborted <;> cases last <;>
        simp [Capture.resume, Capture.pending, aborted]
    rw [Capture.pending, inserts.inserting] at before
    rw [if_pos rfl, none_pending, List.append_nil]
    exact before
  · rw [if_neg different, List.append_nil]
    exact sound.numbered other after same

/-- What was inserted is still of the generation of its capture. -/
theorem Inserts.writers (sound : Sound system)
    (inserts : Inserts system next number capture batch last)
    (member : (other, row) ∈ next.inserted) :
    ∃ writer, next.captures[other]? = some writer ∧ writer.begun ∧
      row.nodeId = writer.nodeId ∧ row.generation = writer.generation := by
  have advances := advances_resume (mayInsert_of_inserting inserts.inserting) last
  have mine : next.captures[number]? =
      some (capture.resume (if last then .ended else .streaming)) := by
    rw [inserts.next_eq]
    exact Slots.getElem?_set_self inserts.found _
  rcases inserts.mem_inserted.mp member with before | ⟨rfl, new⟩
  · obtain ⟨writer, there, begun, node, generation⟩ := sound.writers other row before
    by_cases own : number = other
    · subst own
      rw [inserts.found] at there
      cases there
      exact ⟨_, mine, advances.begun begun, node, generation⟩
    · refine ⟨writer, ?_, begun, node, generation⟩
      rw [inserts.next_eq]
      exact (List.getElem?_set_ne own).trans there
  · have begun : capture.begun := by simp [Capture.begun, inserts.inserting]
    exact ⟨_, mine, advances.begun begun, of_mem_batchRows new⟩

theorem Sound.inserts (sound : Sound system)
    (inserts : Inserts system next number capture batch last) : Sound next where
  owned other after found may row member node generation :=
    inserts.owned sound found may member node generation
  writers other row member := inserts.writers sound member
  stored other row member := by
    rcases inserts.mem_inserted.mp member with before | ⟨rfl, new⟩
    · obtain ⟨held, stored, rest⟩ := sound.stored other row before
      exact ⟨held, (inserts.mem_rows sound).mpr (.inl stored), rest⟩
    · exact LogTable.stored_of_mem ((inserts.mem_rows sound).mpr (.inr new))
  apart one other after foreign found elsewhere writes foreign_writes node generation :=
    inserts.apart sound found elsewhere writes foreign_writes node generation
  numbered other after found := inserts.numbered sound found
  kept other row member := by
    rcases inserts.mem_inserted.mp member with before | ⟨rfl, new⟩
    · exact (sound.kept other row before).imp
        (fun stored => (inserts.mem_rows sound).mpr (.inl stored))
        (System.Superseded.mono fun _ listed => inserts.begun ▸ listed)
    · exact .inl ((inserts.mem_rows sound).mpr (.inr new))
  begun row member := by
    rw [inserts.begun]
    rcases (inserts.mem_rows sound).mp member with stored | new
    · exact sound.begun row stored
    · rw [(of_mem_batchRows new).1, (of_mem_batchRows new).2]
      exact sound.given number capture inserts.found (mayInsert_of_inserting inserts.inserting)
  given other after found may := by
    rw [inserts.begun]
    rcases inserts.captures found with ⟨rfl, rfl⟩ | ⟨-, same⟩
    · exact sound.given number capture inserts.found (mayInsert_of_inserting inserts.inserting)
    · exact sound.given other after same may
  ignored := by
    rw [inserts.next_eq]
    change system.ignored ++ _ = []
    rw [sound.ignored, (inserts.rows_eq sound).2]
    rfl

end Inserts

theorem Sound.step (sound : Sound system) {event : Event} (apart : system.beginsApart event) :
    Sound (system.step event) := by
  rcases step_cases system event with
    quiet | ⟨number, capture, rfl, begins⟩ | ⟨number, capture, batch, last, inserts⟩
  · exact sound.quiet quiet
  · exact sound.begins begins (sound.fresh begins apart)
  · exact sound.inserts inserts

end Steps

/-! ## The lines of a generation over a run -/

section Growth

variable {system next : System} {number : Nat} {capture : Capture}

/-- The lines of a generation are the same, with others behind them or without. -/
def Grown (system next : System) (nodeId : String) (generation : Int) : Prop :=
  system.table.history nodeId generation <+: next.table.history nodeId generation

theorem Begins.grown (sound : Sound system) (begins : Begins system next number capture)
    (nodeId : String) (generation : Int) :
    Grown system next nodeId generation ∨ next.Superseded nodeId generation := by
  by_cases old : nodeId = capture.nodeId ∧
      generation ≤ system.table.nextGeneration capture.nodeId - 2
  · obtain ⟨rfl, before⟩ := old
    cases lines : system.table.history capture.nodeId generation with
    | nil =>
        left
        rw [Grown, lines]
        exact List.nil_prefix
    | cons line rest =>
        right
        have held : line ∈ system.table.history capture.nodeId generation :=
          lines ▸ List.mem_cons_self
        exact begins.superseded sound (LogTable.mem_history.mp held) rfl before
  · left
    have same : next.table.linesOf nodeId generation = system.table.linesOf nodeId generation := by
      rw [begins.next_eq]
      change ((system.table.rows.filter _).filter _).map _ = _
      rw [List.filter_filter, LogTable.linesOf]
      congr 1
      refine List.filter_congr fun row _ => ?_
      rw [Bool.and_eq_left_iff_imp]
      intro of
      rw [Row.isOf, Bool.and_eq_true, beq_iff_eq, beq_iff_eq] at of
      rw [of.1, of.2]
      rw [Bool.not_eq_true', Bool.and_eq_false_iff, beq_eq_false_iff_ne, decide_eq_false_iff_not]
      exact not_and_or.mp old
    have history := @LogTable.history_of_linesOf_append system.table nodeId generation next.table []
      (by rw [same, List.append_nil]) List.Pairwise.nil (fun _ _ _ member => by cases member)
    rw [Grown, history]
    exact List.prefix_append _ _

theorem Inserts.grown (sound : Sound system) {batch : List LogLine} {last : Bool}
    (inserts : Inserts system next number capture batch last) (nodeId : String)
    (generation : Int) : Grown system next nodeId generation := by
  have rows : next.table.rows = system.table.rows ++ batchRows capture batch := by
    rw [inserts.next_eq]
    exact (inserts.rows_eq sound).1
  have lines : next.table.linesOf nodeId generation = system.table.linesOf nodeId generation ++
      ((batchRows capture batch).filter fun row => row.isOf nodeId generation).map Row.line := by
    rw [LogTable.linesOf, rows, List.filter_append, List.map_append, LogTable.linesOf]
  have added : ((batchRows capture batch).filter fun row =>
      row.isOf nodeId generation).map Row.line =
      if capture.nodeId = nodeId ∧ capture.generation = generation then batch else [] := by
    rw [batchRows, LogTable.rowsOf, List.filter_map, List.map_map]
    by_cases here : capture.nodeId = nodeId ∧ capture.generation = generation
    · rw [if_pos here]
      simp [Function.comp_def, Row.isOf, here.1, here.2]
    · have foreign : (capture.nodeId == nodeId && capture.generation == generation) = false := by
        rw [Bool.and_eq_false_iff, beq_eq_false_iff_ne, beq_eq_false_iff_ne]
        exact not_and_or.mp here
      rw [if_neg here]
      simp only [Function.comp_def, Row.isOf, foreign, List.filter_false, List.map_nil]
  rw [added] at lines
  have history := LogTable.history_of_linesOf_append lines ?_ ?_
  · rw [Grown, history]
    exact List.prefix_append _ _
  · split
    · exact (inserts.batch_numbered sound).1
    · exact List.Pairwise.nil
  · intro line held new member
    split at member
    · rename_i here
      exact inserts.behind sound (LogTable.mem_linesOf.mp held) here.1.symm here.2.symm member
    · cases member

theorem begun_step (system : System) (event : Event) :
    ∀ begun ∈ system.begun, begun ∈ (system.step event).begun := by
  intro begun member
  rcases step_cases system event with
    quiet | ⟨number, capture, -, begins⟩ | ⟨number, capture, batch, last, inserts⟩
  · exact quiet.begun ▸ member
  · rw [begins.next_eq]
    exact List.mem_append_left _ member
  · rw [inserts.next_eq]
    exact member

theorem Sound.grown_step (sound : Sound system) (event : Event) (nodeId : String)
    (generation : Int) :
    Grown system (system.step event) nodeId generation ∨
      (system.step event).Superseded nodeId generation := by
  rcases step_cases system event with
    quiet | ⟨number, capture, -, begins⟩ | ⟨number, capture, batch, last, inserts⟩
  · left
    rw [Grown, quiet.table]
  · exact begins.grown sound nodeId generation
  · exact .inl (inserts.grown sound nodeId generation)

theorem begun_run (system : System) (events : List Event) :
    ∀ begun ∈ system.begun, begun ∈ (Execution.run System.step system events).begun := by
  intro begun member
  exact Execution.run_always System.step (fun state => begun ∈ state.begun)
    (fun state event held => begun_step state event begun held) member events

theorem Sound.grown_run (sound : Sound system) {events : List Event}
    (apart : Execution.Along System.step (fun state event => state.beginsApart event) system events)
    (nodeId : String) (generation : Int)
    (kept : ¬(Execution.run System.step system events).Superseded nodeId generation) :
    Grown system (Execution.run System.step system events) nodeId generation := by
  induction events generalizing system with
  | nil => exact List.prefix_rfl
  | cons event events ih =>
      rcases sound.grown_step event nodeId generation with grown | gone
      · exact grown.trans (ih (sound.step apart.1) apart.2 kept)
      · exact absurd (gone.mono (begun_run _ events)) kept

end Growth

/-! ## Captured logs are neither lost nor mixed -/

/-- A run goes on between the requests of a reader, each for a number of lines: the tables the
requests meet. -/
def tablesMet : System → List (Nat × List Event) → List (LogTable × Nat)
  | _, [] => []
  | system, (size, events) :: requests =>
      (system.table, size) :: tablesMet (Execution.run System.step system events) requests

/-- The pages of a reader who asks for ever older lines of a generation while the run goes on. -/
def pagesRead (system : System) (nodeId : String) (generation : Int)
    (requests : List (Nat × List Event)) : List (List LogLine) :=
  Paging.pages LogLine.seq
    (fun (table : LogTable) before size => table.loadLogHistory nodeId generation before size) none
    (tablesMet system requests)

section Claim

variable {system : System}

/-- What the events after each request are, together. -/
abbrev between (requests : List (Nat × List Event)) : List Event := requests.flatMap Prod.snd

theorem tablesMet_sizes (system : System) (requests : List (Nat × List Event)) :
    (tablesMet system requests).map Prod.snd = requests.map Prod.fst := by
  induction requests generalizing system with
  | nil => rfl
  | cons request requests ih =>
      rw [tablesMet, List.map_cons, List.map_cons, ih]

/-- Every table a reader meets has the lines the first one had, and maybe others behind them. -/
theorem Sound.tablesMet_grown (sound : Sound system) {requests : List (Nat × List Event)}
    (apart : Execution.Along System.step (fun state event => state.beginsApart event) system
      (between requests))
    {generation : Int}
    (kept : ¬(Execution.run System.step system (between requests)).Superseded nodeId generation) :
    ∀ request ∈ tablesMet system requests,
      system.table.history nodeId generation <+: request.1.history nodeId generation := by
  induction requests generalizing system with
  | nil => intro request member; cases member
  | cons first requests ih =>
      obtain ⟨size, events⟩ := first
      rw [between, List.flatMap_cons] at apart kept
      rw [Execution.run_append] at kept
      obtain ⟨early, late⟩ := (Execution.along_append _ _ _ _ _).mp apart
      have still : ¬(Execution.run System.step system events).Superseded nodeId generation :=
        fun gone => kept (gone.mono (begun_run _ _))
      have after : Sound (Execution.run System.step system events) :=
        Execution.run_invariant System.step _ Sound (fun _ _ sound apart => sound.step apart) sound
          early
      intro request member
      rw [tablesMet] at member
      rcases List.mem_cons.mp member with rfl | later
      · exact List.prefix_rfl
      · exact (sound.grown_run early nodeId generation still).trans
          (ih after late kept request later)

theorem Sound.pagesRead_flatten (sound : Sound system) {requests : List (Nat × List Event)}
    (apart : Execution.Along System.step (fun state event => state.beginsApart event) system
      (between requests))
    {generation : Int}
    (kept : ¬(Execution.run System.step system (between requests)).Superseded nodeId generation)
    (sizes : ∀ request ∈ requests, 1 ≤ request.1) :
    (pagesRead system nodeId generation requests).reverse.flatten =
      (system.table.history nodeId generation).rtake (requests.map Prod.fst).sum := by
  rw [pagesRead, ← tablesMet_sizes system requests]
  refine @Paging.pages_of_growing _ _ _ _ LogLine.seq _
    (fun table : LogTable => table.history nodeId generation) _ _
    (system.table.history_ascending nodeId generation)
    (fun request _ before size => request.1.loadLogHistory_eq_page nodeId generation before size)
    (fun request _ => request.1.history_ascending nodeId generation) (fun request first => ?_)
    (sound.tablesMet_grown apart kept) (fun request member => ?_)
  · cases requests with
    | nil => cases first
    | cons request requests =>
        cases first
        rfl
  · have listed : request.2 ∈ requests.map Prod.fst := by
      rw [← tablesMet_sizes system requests]
      exact List.mem_map_of_mem member
    obtain ⟨asked, there, same⟩ := List.mem_map.mp listed
    exact same ▸ sizes asked there

/-- A limit that is large enough returns all lines of a generation. -/
theorem LogTable.mem_loadLogHistory {table : LogTable} (stored : row ∈ table.rows) {limit : Nat}
    (large : (table.history row.nodeId row.generation).length ≤ limit) :
    row.line ∈ table.loadLogHistory row.nodeId row.generation none limit := by
  rw [table.loadLogHistory_eq_page, Paging.page_none, List.rtake, Nat.sub_eq_zero_of_le large,
    List.drop_zero]
  exact LogTable.mem_history.mpr stored

/-- When no generation begins under the number of a capture that may still insert, the captures of
every run write under generations of their own, no line is ignored, every line is returned until two
later generations have begun, and pages of any sizes, read while the run goes on, are together the
last lines of the generation in their order. -/
theorem captured_lines_kept (table : LogTable) (events : List Event)
    (apart : Execution.Along System.step (fun state event => state.beginsApart event) (start table)
      events) :
    let system := Execution.run System.step (start table) events
    (∀ one other row foreign, (one, row) ∈ system.inserted → (other, foreign) ∈ system.inserted →
      row.nodeId = foreign.nodeId → row.generation = foreign.generation → one = other) ∧
    system.ignored = [] ∧
    (∀ number row, (number, row) ∈ system.inserted →
      system.Superseded row.nodeId row.generation ∨
        ∀ limit : Nat, (system.table.history row.nodeId row.generation).length ≤ limit →
          row.line ∈ system.table.loadLogHistory row.nodeId row.generation none limit) ∧
    ∀ nodeId generation requests,
      Execution.Along System.step (fun state event => state.beginsApart event) system
        (between requests) →
      ¬(Execution.run System.step system (between requests)).Superseded nodeId generation →
      (∀ request ∈ requests, 1 ≤ request.1) →
        (pagesRead system nodeId generation requests).reverse.flatten =
          (system.table.history nodeId generation).rtake (requests.map Prod.fst).sum := by
  intro system
  have sound : Sound system :=
    Execution.run_invariant System.step _ Sound (fun _ _ sound apart => sound.step apart)
      (sound_start table) apart
  refine ⟨fun one other row foreign inserted elsewhere node generation => ?_, sound.ignored,
    fun number row inserted => ?_, fun nodeId generation requests along kept sizes =>
      sound.pagesRead_flatten along kept sizes⟩
  · obtain ⟨capture, found, -, capture_node, capture_generation⟩ :=
      sound.writers one row inserted
    obtain ⟨second, there, -, second_node, second_generation⟩ :=
      sound.writers other foreign elsewhere
    exact sound.apart one other capture second found there (.inr ⟨row, inserted⟩)
      (.inr ⟨foreign, elsewhere⟩) (by rw [← capture_node, node, second_node])
      (by rw [← capture_generation, generation, second_generation])
  · rcases sound.kept number row inserted with stored | gone
    · exact .inr fun limit large => LogTable.mem_loadLogHistory stored large
    · exact .inl gone

end Claim

/-- A database without log lines. -/
def emptyTable : LogTable := ⟨[], List.Pairwise.nil⟩

/-- A start of the node `api`, up to the generation of its capture. -/
def startOfApi (number : Nat) : List Event :=
  [.spawn "api", .register number, .poll number, .settle number true]

/-- Two starts, the second after the first has stored a line. -/
def startsInTurn : List Event :=
  startOfApi 0 ++ [.item 0 .stdout "1 up\n2 ready\n".toList true, .settle 0 true] ++
    startOfApi 1 ++ [.item 1 .stderr "3 up again\n".toList true, .settle 1 true]

theorem captured_lines_kept_in_turn :
    let system := Execution.run System.step (start emptyTable) startsInTurn
    ((pagesRead system "api" 0 [(1, [.close 1]), (1, [])]).reverse.flatten =
      [⟨0, .stdout, "1".toList, "up".toList⟩, ⟨1, .stdout, "2".toList, "ready".toList⟩]) ∧
    system.ignored = [] := by
  have kept := captured_lines_kept emptyTable startsInTurn (by
    simp only [Execution.Along, startsInTurn, startOfApi, List.cons_append, List.nil_append]
    decide)
  refine ⟨?_, kept.2.1⟩
  rw [kept.2.2.2 "api" 0 [(1, [.close 1]), (1, [])] ⟨by decide, trivial⟩
    (by decide) (by decide)]
  decide

/-- The second start comes when the first has handed a line over that is not stored yet: both write
under generation 0, and the line is ignored. -/
theorem captured_lines_lost :
    ¬∀ (table : LogTable) (events : List Event),
      let system := Execution.run System.step (start table) events
      (∀ one other row foreign, (one, row) ∈ system.inserted → (other, foreign) ∈ system.inserted →
        row.nodeId = foreign.nodeId → row.generation = foreign.generation → one = other) ∧
      system.ignored = [] := by
  intro claim
  have ignored := (claim emptyTable
    (startOfApi 0 ++ [.item 0 .stdout "1 up\n".toList true] ++ startOfApi 1 ++
      [.item 1 .stdout "2 up again\n".toList true, .settle 1 true, .settle 0 true])).2
  revert ignored
  decide

end Logs
end Fghj
