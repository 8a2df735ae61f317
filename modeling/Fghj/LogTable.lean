import Fghj.Library.Paging
import Mathlib.Data.List.Sort
import Mathlib.Algebra.Order.Ring.Int

/-!
# The table of captured log lines

One table holds the log lines of every node. A row belongs to a node and to a generation of its
logs, and is numbered within it; no two rows agree in all three. A generation is numbered after
the greatest one that has a row.
-/

namespace Fghj
namespace Logs

inductive Stream where
  | stdout
  | stderr
  deriving DecidableEq

structure LogLine where
  seq : Int
  stream : Stream
  ts : List Char
  line : List Char
  deriving DecidableEq

structure Row where
  nodeId : String
  generation : Int
  line : LogLine
  deriving DecidableEq

/-- What no two rows share. -/
def Row.key (row : Row) : String × Int × Int := (row.nodeId, row.generation, row.line.seq)

/-- A row of a generation of a node. -/
def Row.isOf (row : Row) (nodeId : String) (generation : Int) : Bool :=
  row.nodeId == nodeId && row.generation == generation

/-- The table, its rows in the order they were inserted. -/
structure LogTable where
  rows : List Row
  keyed : rows.Pairwise fun one other => one.key ≠ other.key

namespace LogTable

/-- The number of the generation that begins next. -/
def nextGeneration (table : LogTable) (nodeId : String) : Int :=
  match ((table.rows.filter fun row => row.nodeId == nodeId).map Row.generation).max? with
  | some greatest => greatest + 1
  | none => 0

/-- Deletes the rows of the generations of a node up to a number. -/
def deleteUpTo (table : LogTable) (nodeId : String) (generation : Int) : LogTable where
  rows := table.rows.filter fun row => !(row.nodeId == nodeId && row.generation ≤ generation)
  keyed := table.keyed.filter _

/-- Begins a generation, and keeps only it and the one before. -/
def beginLogGeneration (table : LogTable) (nodeId : String) : LogTable × Int :=
  let generation := table.nextGeneration nodeId
  (table.deleteUpTo nodeId (generation - 2), generation)

/-- Some row has the key already. -/
def Taken (table : LogTable) (row : Row) : Prop := ∃ held ∈ table.rows, held.key = row.key

instance (table : LogTable) (row : Row) : Decidable (table.Taken row) :=
  inferInstanceAs (Decidable (∃ held ∈ table.rows, held.key = row.key))

/-- Adds a row whose key is free. -/
def insert (table : LogTable) (row : Row) (free : ¬table.Taken row) : LogTable where
  rows := table.rows ++ [row]
  keyed := by
    refine List.pairwise_append.mpr ⟨table.keyed, List.pairwise_singleton _ _, ?_⟩
    intro held member other last same
    rw [List.mem_singleton.mp last] at same
    exact free ⟨held, member, same⟩

def insertOrIgnore (table : LogTable) (row : Row) : LogTable :=
  if taken : table.Taken row then table else table.insert row taken

/-- The lines a capture hands over, as rows. -/
def rowsOf (nodeId : String) (generation : Int) (lines : List LogLine) : List Row :=
  lines.map fun line => ⟨nodeId, generation, line⟩

def insertLogLines (table : LogTable) (nodeId : String) (generation : Int)
    (lines : List LogLine) : LogTable :=
  (rowsOf nodeId generation lines).foldl insertOrIgnore table

/-- The rows that inserting some rows one after the other drops. -/
def ignored : LogTable → List Row → List Row
  | _, [] => []
  | table, row :: rows =>
      if table.Taken row then row :: ignored table rows
      else ignored (table.insertOrIgnore row) rows

/-- The lines of a generation, in the order they were inserted. -/
def linesOf (table : LogTable) (nodeId : String) (generation : Int) : List LogLine :=
  (table.rows.filter fun row => row.isOf nodeId generation).map Row.line

/-- The last lines of a generation before a number, or of all of it, oldest first. A negative limit
is none. -/
def loadLogHistory (table : LogTable) (nodeId : String) (generation : Int)
    (beforeSeq : Option Int) (limit : Int) : List LogLine :=
  let selected := (table.linesOf nodeId generation).filter fun line =>
    beforeSeq.all fun bound => decide (line.seq < bound)
  let ordered := selected.insertionSort fun one other => other.seq ≤ one.seq
  (if limit < 0 then ordered else ordered.take limit.toNat).reverse

/-- All lines of a generation, oldest first. -/
def history (table : LogTable) (nodeId : String) (generation : Int) : List LogLine :=
  table.loadLogHistory nodeId generation none (-1)

section Reading

variable {table : LogTable} {nodeId : String} {generation : Int}

theorem mem_linesOf {line : LogLine} :
    line ∈ table.linesOf nodeId generation ↔ ⟨nodeId, generation, line⟩ ∈ table.rows := by
  rw [linesOf, List.mem_map]
  constructor
  · rintro ⟨row, member, rfl⟩
    obtain ⟨held, here⟩ := List.mem_filter.mp member
    rw [Row.isOf, Bool.and_eq_true, beq_iff_eq, beq_iff_eq] at here
    obtain ⟨rfl, rfl⟩ := here
    exact held
  · intro held
    exact ⟨_, List.mem_filter.mpr ⟨held, by simp [Row.isOf]⟩, rfl⟩

/-- The lines of a generation are numbered differently. -/
theorem linesOf_pairwise (table : LogTable) (nodeId : String) (generation : Int) :
    (table.linesOf nodeId generation).Pairwise fun one other => one.seq ≠ other.seq := by
  rw [linesOf, List.pairwise_map]
  refine (table.keyed.filter _).imp_of_mem fun {one other} one_here other_here apart same => ?_
  have one_of := (List.mem_filter.mp one_here).2
  have other_of := (List.mem_filter.mp other_here).2
  rw [Row.isOf, Bool.and_eq_true, beq_iff_eq, beq_iff_eq] at one_of other_of
  exact apart (by rw [Row.key, Row.key, one_of.1, one_of.2, other_of.1, other_of.2, same])

instance : Std.Total fun one other : LogLine => other.seq ≤ one.seq :=
  ⟨fun one other => le_total other.seq one.seq⟩

instance : IsTrans LogLine fun one other => other.seq ≤ one.seq :=
  ⟨fun _ _ _ less more => le_trans more less⟩

/-- Lines that are numbered differently are in ascending order once sorted downwards and
reversed. -/
theorem ascending_sorted {lines : List LogLine}
    (apart : lines.Pairwise fun one other => one.seq ≠ other.seq) :
    Paging.Ascending LogLine.seq
      (lines.insertionSort fun one other => other.seq ≤ one.seq).reverse := by
  rw [Paging.Ascending, List.pairwise_reverse]
  have sorted := List.pairwise_insertionSort
    (fun one other : LogLine => other.seq ≤ one.seq) lines
  have different := apart.perm
    (List.perm_insertionSort (fun one other : LogLine => other.seq ≤ one.seq) lines).symm Ne.symm
  exact (sorted.and different).imp fun both => lt_of_le_of_ne both.1 both.2.symm

theorem history_ascending (table : LogTable) (nodeId : String) (generation : Int) :
    Paging.Ascending LogLine.seq (table.history nodeId generation) := by
  simp only [history, loadLogHistory, Option.all_none, List.filter_true,
    if_pos (by decide : -1 < (0 : Int))]
  exact ascending_sorted (table.linesOf_pairwise nodeId generation)

theorem history_perm (table : LogTable) (nodeId : String) (generation : Int) :
    (table.history nodeId generation).Perm (table.linesOf nodeId generation) := by
  simp only [history, loadLogHistory, Option.all_none, List.filter_true,
    if_pos (by decide : -1 < (0 : Int))]
  exact (List.reverse_perm _).trans (List.perm_insertionSort _ _)

/-- A request is answered with a page of the lines of the generation. -/
theorem loadLogHistory_eq_page (table : LogTable) (nodeId : String) (generation : Int)
    (beforeSeq : Option Int) (size : Nat) :
    table.loadLogHistory nodeId generation beforeSeq size =
      Paging.page LogLine.seq (table.history nodeId generation) beforeSeq size := by
  have ordered : (((table.linesOf nodeId generation).filter fun line =>
      beforeSeq.all fun bound => decide (line.seq < bound)).insertionSort
        fun one other => other.seq ≤ one.seq).reverse =
      (table.history nodeId generation).filter fun line =>
        beforeSeq.all fun bound => decide (line.seq < bound) := by
    refine Paging.Ascending.eq_of_perm
      (ascending_sorted ((table.linesOf_pairwise nodeId generation).filter _))
      ((table.history_ascending nodeId generation).filter _) ?_
    exact ((List.reverse_perm _).trans (List.perm_insertionSort _ _)).trans
      ((table.history_perm nodeId generation).symm.filter _)
  have natural : ¬((size : Int) < 0) := by omega
  rw [Paging.page, ← ordered, List.rtake_eq_reverse_take_reverse, List.reverse_reverse]
  simp only [loadLogHistory, if_neg natural, Int.toNat_natCast]

theorem mem_history {line : LogLine} :
    line ∈ table.history nodeId generation ↔ ⟨nodeId, generation, line⟩ ∈ table.rows := by
  rw [(table.history_perm nodeId generation).mem_iff, mem_linesOf]

/-- Rows numbered after those of their generation stand behind them. -/
theorem history_of_linesOf_append {after : LogTable} {added : List LogLine}
    (lines : after.linesOf nodeId generation = table.linesOf nodeId generation ++ added)
    (sorted : Paging.Ascending LogLine.seq added)
    (behind : ∀ line ∈ table.linesOf nodeId generation, ∀ new ∈ added, line.seq < new.seq) :
    after.history nodeId generation = table.history nodeId generation ++ added := by
  refine (after.history_ascending nodeId generation).eq_of_perm ?_ ?_
  · refine List.pairwise_append.mpr ⟨table.history_ascending nodeId generation, sorted, ?_⟩
    intro line member
    exact behind line ((table.history_perm nodeId generation).mem_iff.mp member)
  · refine (after.history_perm nodeId generation).trans ?_
    rw [lines]
    exact (table.history_perm nodeId generation).symm.append_right added

end Reading

/-! ## Generations -/

section Generations

variable {table : LogTable} {nodeId : String} {generation : Int} {row : Row}

/-- A row of this generation of the node or of a later one is stored. -/
def Stored (table : LogTable) (nodeId : String) (generation : Int) : Prop :=
  ∃ row ∈ table.rows, row.nodeId = nodeId ∧ generation ≤ row.generation

theorem stored_of_mem (member : row ∈ table.rows) : table.Stored row.nodeId row.generation :=
  ⟨row, member, rfl, le_refl _⟩

/-- Either no row of the node is stored, or one is of the generation before the next. -/
theorem nextGeneration_cases (table : LogTable) (nodeId : String) :
    (∀ row ∈ table.rows, row.nodeId ≠ nodeId) ∨
      ∃ last ∈ table.rows, last.nodeId = nodeId ∧
        table.nextGeneration nodeId = last.generation + 1 ∧
        ∀ row ∈ table.rows, row.nodeId = nodeId → row.generation ≤ last.generation := by
  rw [nextGeneration]
  cases greatest : ((table.rows.filter fun row => row.nodeId == nodeId).map
    Row.generation).max? with
  | none =>
      left
      intro row member here
      have empty := List.max?_eq_none_iff.mp greatest
      rw [List.map_eq_nil_iff, List.filter_eq_nil_iff] at empty
      exact empty row member (beq_iff_eq.mpr here)
  | some value =>
      right
      obtain ⟨member, most⟩ := List.max?_eq_some_iff.mp greatest
      obtain ⟨last, held, rfl⟩ := List.mem_map.mp member
      obtain ⟨stored, here⟩ := List.mem_filter.mp held
      refine ⟨last, stored, beq_iff_eq.mp here, rfl, fun row row_stored row_here => ?_⟩
      exact most _ (List.mem_map_of_mem (List.mem_filter.mpr ⟨row_stored, beq_iff_eq.mpr row_here⟩))

theorem Stored.lt_next (stored : table.Stored nodeId generation) :
    generation < table.nextGeneration nodeId := by
  obtain ⟨row, member, here, le⟩ := stored
  rcases table.nextGeneration_cases nodeId with none_stored | ⟨last, -, -, next, most⟩
  · exact absurd here (none_stored row member)
  · have := most row member here
    omega

theorem mem_deleteUpTo :
    row ∈ (table.deleteUpTo nodeId generation).rows ↔
      row ∈ table.rows ∧ ¬(row.nodeId = nodeId ∧ row.generation ≤ generation) := by
  simp only [deleteUpTo, List.mem_filter, Bool.not_eq_true', Bool.and_eq_false_iff,
    beq_eq_false_iff_ne, decide_eq_false_iff_not, not_and_or, ne_eq]

/-- What begins keeps a row of every generation that had one, or one of a later generation. -/
theorem Stored.begin {other : String} (stored : table.Stored other generation) :
    (table.beginLogGeneration nodeId).1.Stored other generation := by
  obtain ⟨row, member, rfl, le⟩ := stored
  by_cases here : row.nodeId = nodeId
  · rcases table.nextGeneration_cases nodeId with none_stored | ⟨last, held, of, next, most⟩
    · exact absurd here (none_stored row member)
    · refine ⟨last, mem_deleteUpTo.mpr ⟨held, ?_⟩, of.trans here.symm, ?_⟩
      · omega
      · have := most row member here
        omega
  · exact ⟨row, mem_deleteUpTo.mpr ⟨member, fun gone => here gone.1⟩, rfl, le⟩

end Generations

/-! ## Rows whose keys are free -/

section Inserting

variable {table : LogTable} {rows : List Row}

/-- Rows with keys of their own are all inserted, and none is ignored. -/
theorem foldl_insertOrIgnore (apart : rows.Pairwise fun one other => one.key ≠ other.key)
    (free : ∀ row ∈ rows, ¬table.Taken row) :
    (rows.foldl insertOrIgnore table).rows = table.rows ++ rows ∧ table.ignored rows = [] := by
  induction rows generalizing table with
  | nil => simp [ignored]
  | cons row rows ih =>
      obtain ⟨head, tail⟩ := List.pairwise_cons.mp apart
      have here : ¬table.Taken row := free row List.mem_cons_self
      have added : (table.insertOrIgnore row).rows = table.rows ++ [row] := by
        rw [insertOrIgnore, dif_neg here]
        rfl
      have still_free (other : Row) (member : other ∈ rows) :
          ¬(table.insertOrIgnore row).Taken other := by
        rintro ⟨held, stored, same⟩
        rw [added, List.mem_append, List.mem_singleton] at stored
        rcases stored with before | rfl
        · exact free other (List.mem_cons_of_mem _ member) ⟨held, before, same⟩
        · exact head other member same
      obtain ⟨after, none_ignored⟩ := ih tail still_free
      constructor
      · rw [List.foldl_cons, after, added, List.append_assoc, List.singleton_append]
      · rw [ignored, if_neg here, none_ignored]

end Inserting

end LogTable
end Logs
end Fghj
