import Fghj.ColumnGraph
import Fghj.Library.Grouping

/-!
# The order of the cards in each column

Sweeps sort the blocks of each real column, and the cards within a block, by keys; swapping
neighbouring blocks and neighbouring cards within a block keeps any swap that cuts crossings. The
best order found is kept, and the skipped columns are lined up behind it.
-/

namespace Fghj
namespace ColumnOrder

open Crossings

def maxSweeps : Nat := 12
def maxSwapPasses : Nat := 8

variable {V κ : Type}

/-- A swap that was kept: the positions before and after it, and the costs it compared. -/
structure Swap (V : Type) where
  was : V → Nat
  now : V → Nat
  kept : Nat
  swapped : Nat

/-- The positions, with a record that nothing reads: the swaps, and the positions before and after
each pass. -/
structure Board (V : Type) where
  pos : V → Nat
  swaps : List (Swap V) := []
  passes : List ((V → Nat) × (V → Nat)) := []

/-- What a sweep sorts a column by. -/
structure Keys (κ V : Type) where
  block : List V → κ
  card : V → κ

/-- `groupOf(v) ?? v` -/
def group (groupOf : V → Option V) (v : V) : V := (groupOf v).getD v

variable [DecidableEq V]

/-- `layer.forEach((v, i) => (pos[v] = i))` -/
def index (pos : V → Nat) (layer : List V) (v : V) : Nat :=
  match layer.idxOf? v with
  | some i => i
  | none => pos v

/-- Blocks as they currently stand: one run of cards per group. -/
def blocksOf (groupOf : V → Option V) (layer : List V) : List (List V) :=
  Grouping.blocks (group groupOf) layer

/-- A block with its cards sorted, its key and its first place. -/
structure Keyed (κ V : Type) where
  cards : List V
  key : κ
  first : Nat

/-- Sort one column by the keys, where they are alike by the places. -/
def sortLayer [LinearOrder κ] (groupOf : V → Option V) (keys : Keys κ V) (pos : V → Nat)
    (layer : List V) : List V :=
  let keyed := (blocksOf groupOf layer).map fun members =>
    ({ cards := members.insertionSort fun a b =>
        keys.card a < keys.card b ∨ keys.card a = keys.card b ∧ pos a ≤ pos b
       key := keys.block members
       first := (members.map pos).min?.getD 0 } : Keyed κ V)
  (keyed.insertionSort fun a b => a.key < b.key ∨ a.key = b.key ∧ a.first ≤ b.first).flatMap
    Keyed.cards

section Swaps

variable {β : Type} (cost : (V → Nat) → β → β → Nat) (flat : List β → List V)

/-- From one item on, every neighbour that costs less above it changes places with it. -/
def swapRun (done : List β) (x : β) : List β → Board V → List β × Bool × Board V
  | [], board => (done ++ [x], false, board)
  | y :: rest, board =>
      let kept := cost board.pos x y
      let swapped := cost board.pos y x
      if swapped < kept then
        let now := index board.pos (flat (done ++ y :: x :: rest))
        let board :=
          { board with pos := now, swaps := board.swaps ++ [⟨board.pos, now, kept, swapped⟩] }
        let (items, _, board) := swapRun (done ++ [y]) x rest board
        (items, true, board)
      else swapRun (done ++ [x]) y rest board

def swapAll : List β → Board V → List β × Bool × Board V
  | [], board => ([], false, board)
  | x :: rest, board => swapRun cost flat [] x rest board

end Swaps

section Columns

variable (groupOf : V → Option V) (left right : V → List (Link V))

/-- Crossings between u's edges and v's edges, on both sides, if u is above v. -/
def pairCost (pos : V → Nat) (u v : V) : Nat := nodeCost left right pos u v

def blockCost (pos : V → Nat) (a b : List V) : Nat := between (pairCost left right pos) a b

/-- The cards of each block in turn, behind the blocks that are done. -/
def swapCards (done : List (List V)) :
    List (List V) → Board V → List (List V) × Bool × Board V
  | [], board => (done, false, board)
  | cards :: blocks, board =>
      let flat cards := done.flatten ++ cards ++ blocks.flatten
      let (cards, improved, board) := swapAll (pairCost left right) flat cards board
      let (blocks, others, board) := swapCards (done ++ [cards]) blocks board
      (blocks, improved || others, board)

def swapPass (layer : List V) (board : Board V) : List V × Bool × Board V :=
  let (blocks, improved, next) :=
    swapAll (blockCost left right) List.flatten (blocksOf groupOf layer) board
  let (blocks, others, next) := swapCards left right [] blocks next
  (blocks.flatten, improved || others,
    { next with passes := next.passes ++ [(board.pos, next.pos)] })

/-- One pass over every column. -/
def swapLayers : List (List V) → Board V → List (List V) × Bool × Board V
  | [], board => ([], false, board)
  | layer :: layers, board =>
      let (layer, improved, board) := swapPass groupOf left right layer board
      let (layers, others, board) := swapLayers layers board
      (layer :: layers, improved || others, board)

/-- Passes until none improves, no more than so many. -/
def swapPasses : Nat → List (List V) → Board V → List (List V) × Board V
  | 0, layers, board => (layers, board)
  | count + 1, layers, board =>
      let (layers, again, board) := swapLayers groupOf left right layers board
      if again then swapPasses count layers board else (layers, board)

def crossings (pos : V → Nat) (layers : List (List V)) : Nat := total right pos layers

variable [LinearOrder κ]

/-- The columns of a list in turn, each sorted and its positions taken. -/
def sortLayers (keys : Nat → Keys κ V) :
    List Nat → List (List V) → Board V → List (List V) × Board V
  | [], layers, board => (layers, board)
  | r :: order, layers, board =>
      let layer := sortLayer groupOf (keys r) board.pos (layers.getD r [])
      sortLayers keys order (layers.set r layer) { board with pos := index board.pos layer }

structure Run (V : Type) where
  layers : List (List V)
  board : Board V
  best : List (List V)
  bestCrossings : Nat
  stale : Nat

/-- Sort left-to-right or back, then swap. -/
def sweep (keys : Nat → Nat → Keys κ V) (i : Nat) (run : Run V) : Run V :=
  let order := List.range run.layers.length
  let order := if i % 2 = 0 then order else order.reverse
  let (layers, board) := sortLayers groupOf (keys i) order.tail run.layers run.board
  let (layers, board) := swapPasses groupOf left right maxSwapPasses layers board
  let c := crossings right board.pos layers
  if c < run.bestCrossings then { layers, board, best := layers, bestCrossings := c, stale := 0 }
  else { run with layers, board, stale := run.stale + 1 }

def sweeps (keys : Nat → Nat → Keys κ V) : Nat → Nat → Run V → Run V
  | 0, _, run => run
  | count + 1, i, run =>
      if run.stale < 2 then sweeps keys count (i + 1) (sweep groupOf left right keys i run) else run

/-- By where the edges start, then by where they end. -/
def byEnds (a b : V × Nat × Nat) : Prop := a.2.1 < b.2.1 ∨ a.2.1 = b.2.1 ∧ a.2.2 ≤ b.2.2

instance decidableByEnds (a b : V × Nat × Nat) : Decidable (byEnds a b) :=
  inferInstanceAs (Decidable (_ ∨ _))

/-- A skipped column, lined up by its edges. -/
def lineUp (pos : V → Nat) (layer : List V) : Option (List V) := do
  let keyed ← layer.mapM fun v => do
    let start ← (left v).head?
    let stop ← (right v).head?
    return (v, pos start.v, pos stop.v)
  return (keyed.insertionSort byEnds).map Prod.fst

end Columns

/-- The order that is found. -/
structure Ordered (V : Type) where
  /-- The real columns, each group joined into one block. -/
  start : List (List V)
  layers : List (List V)
  passing : List (List V)
  order : V → Nat
  board : Board V

/-- The order of the cards in each column; without a result where an edge is missing or a walk has
no end. -/
def columnOrder [LinearOrder κ] (groupOf : V → Option V) (keys : Nat → Nat → Keys κ V)
    (graph : Graph V) : Option (Ordered V) := do
  let left ← links graph .left
  let right ← links graph .right
  let pos := graph.layers.foldl index fun _ => 0
  let joined := graph.layers.map fun layer => (blocksOf groupOf layer).flatten
  let pos := joined.foldl index pos
  let run := sweeps groupOf left right keys maxSweeps 0
    { layers := joined
      board := { pos }
      best := joined
      bestCrossings := crossings right pos joined
      stale := 0 }
  let pos := run.best.foldl index run.board.pos
  let passing ← graph.passing.mapM (lineUp left right pos)
  let order := passing.foldl index pos
  return { start := joined, layers := run.best, passing, order, board := run.board }

end ColumnOrder
end Fghj
