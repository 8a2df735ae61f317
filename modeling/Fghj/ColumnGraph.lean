import Fghj.Library.Crossings
import Fghj.Library.Listing
import Fghj.Library.Loop

/-!
# The columns of a layered graph

Nodes stand in a column for each rank, and every edge joins neighbouring columns. A column of
nothing but dummies is skipped: each card is linked straight through to the next real column. The
links on the right of a real column are the links on the left of the next.
-/

namespace Fghj
namespace ColumnOrder

open Crossings

variable {V : Type}

structure Edge (V : Type) where
  v : V
  w : V
  weight : Option Nat
  deriving DecidableEq

/-- `graph.edge(e).weight ?? 1` -/
def Edge.weighs (edge : Edge V) : Nat := edge.weight.getD 1

/-- The graph as dagre hands it over. -/
structure Graph (V : Type) where
  nodes : List V
  rank : V → Int
  order : V → Nat
  dummy : V → Bool
  edges : List (Edge V)

namespace Graph

variable (graph : Graph V)

def ranks : List Int := (graph.nodes.map graph.rank).eraseDups.insertionSort (· ≤ ·)

/-- The nodes of a rank, in the order they come in. -/
def column (rank : Int) : List V :=
  (graph.nodes.filter fun v => graph.rank v = rank).insertionSort fun one other =>
    graph.order one ≤ graph.order other

/-- All columns, from left to right. -/
def all : List (List V) := graph.ranks.map graph.column

def isPassing (layer : List V) : Bool := layer.all graph.dummy

/-- Columns of nothing but dummies. -/
def passing : List (List V) := graph.all.filter fun layer => graph.isPassing layer

def skipped : List V := graph.passing.flatten

def layers : List (List V) := graph.all.filter fun layer => !graph.isPassing layer

variable [DecidableEq V]

def inEdges (v : V) : List (Edge V) := graph.edges.filter fun e => e.w = v

def outEdges (v : V) : List (Edge V) := graph.edges.filter fun e => e.v = v

end Graph

/-- The side a node is looked at from: in is left and out is right. -/
inductive Side where
  | left
  | right

def Side.edgesOf [DecidableEq V] (graph : Graph V) : Side → V → List (Edge V)
  | .left => graph.inEdges
  | .right => graph.outEdges

def Side.endOf : Side → Edge V → V
  | .left => Edge.v
  | .right => Edge.w

section Walks

variable [DecidableEq V]

/-- One step through a skipped column; it fails at a node with no edge. -/
def walkPass (graph : Graph V) (side : Side) (n : V) : Pass V (Option V) :=
  if n ∈ graph.skipped then
    match side.edgesOf graph n with
    | [] => .done none
    | e :: _ => .again (side.endOf e)
  else .done (some n)

/-- The first node from here that is not skipped; without a result if there is no end. -/
def walk (graph : Graph V) (side : Side) (n : V) : Option V :=
  (Pass.loop (walkPass graph side) (graph.nodes.length + 1) n).join

def through (graph : Graph V) (side : Side) (v : V) : Option (List (Link V)) :=
  (side.edgesOf graph v).mapM fun e =>
    (walk graph side (side.endOf e)).map fun n => ⟨n, e.weighs⟩

/-- The links of every node on a side. -/
def links (graph : Graph V) (side : Side) : Option (V → List (Link V)) :=
  if graph.nodes.all fun v => (through graph side v).isSome then
    some fun v => (through graph side v).getD []
  else none

/-- What is known of the graph that is handed over: edges join neighbouring ranks, and a dummy of a
skipped column has one edge in and one out, of equal weight. -/
structure Graph.Layered (graph : Graph V) : Prop where
  nodup : graph.nodes.Nodup
  mem : ∀ e ∈ graph.edges, e.v ∈ graph.nodes ∧ e.w ∈ graph.nodes
  lt : ∀ e ∈ graph.edges, graph.rank e.v < graph.rank e.w
  next : ∀ e ∈ graph.edges, ∀ v ∈ graph.nodes,
    graph.rank v ≤ graph.rank e.v ∨ graph.rank e.w ≤ graph.rank v
  one_in : ∀ v ∈ graph.skipped, ∃ e, graph.inEdges v = [e]
  one_out : ∀ v ∈ graph.skipped, ∃ e, graph.outEdges v = [e]
  even : ∀ v ∈ graph.skipped, ∀ e ∈ graph.inEdges v, ∀ f ∈ graph.outEdges v, e.weighs = f.weighs

end Walks

/-! ## Columns -/

variable {before after : List Int} {v : V}

section Columns

variable {graph : Graph V} {rank : Int}

theorem ranks_pairwise (graph : Graph V) : graph.ranks.Pairwise (· < ·) := by
  have sorted := List.pairwise_insertionSort (· ≤ ·) (graph.nodes.map graph.rank).eraseDups
  have perm := List.perm_insertionSort (· ≤ ·) (graph.nodes.map graph.rank).eraseDups
  have nodup := perm.nodup_iff.mpr (Listing.nodup_eraseDups _)
  exact (sorted.and nodup).imp fun both => lt_of_le_of_ne both.1 both.2

theorem mem_ranks : rank ∈ graph.ranks ↔ ∃ v ∈ graph.nodes, graph.rank v = rank := by
  rw [Graph.ranks, List.mem_insertionSort, List.mem_eraseDups, List.mem_map]

theorem mem_column : v ∈ graph.column rank ↔ v ∈ graph.nodes ∧ graph.rank v = rank := by
  rw [Graph.column, List.mem_insertionSort]
  simp

theorem column_perm (graph : Graph V) (rank : Int) :
    (graph.column rank).Perm (graph.nodes.filter fun v => graph.rank v = rank) :=
  List.perm_insertionSort _ _

theorem mem_all {layer : List V} :
    layer ∈ graph.all ↔ ∃ v ∈ graph.nodes, layer = graph.column (graph.rank v) := by
  rw [Graph.all, List.mem_map]
  constructor
  · rintro ⟨rank, member, rfl⟩
    obtain ⟨v, listed, rfl⟩ := mem_ranks.mp member
    exact ⟨v, listed, rfl⟩
  · rintro ⟨v, listed, rfl⟩
    exact ⟨graph.rank v, mem_ranks.mpr ⟨v, listed, rfl⟩, rfl⟩

theorem mem_skipped :
    v ∈ graph.skipped ↔ v ∈ graph.nodes ∧ graph.isPassing (graph.column (graph.rank v)) := by
  rw [Graph.skipped, List.mem_flatten]
  constructor
  · rintro ⟨layer, listed, member⟩
    obtain ⟨inside, passes⟩ := List.mem_filter.mp listed
    obtain ⟨w, -, rfl⟩ := mem_all.mp inside
    obtain ⟨known, same⟩ := mem_column.mp member
    rw [same]
    exact ⟨known, passes⟩
  · rintro ⟨known, passes⟩
    exact ⟨graph.column (graph.rank v), List.mem_filter.mpr ⟨mem_all.mpr ⟨v, known, rfl⟩, passes⟩,
      mem_column.mpr ⟨known, rfl⟩⟩

theorem isPassing_of_mem {layer : List V} (listed : layer ∈ graph.all) (member : v ∈ layer) :
    v ∈ graph.skipped ↔ graph.isPassing layer := by
  obtain ⟨w, -, rfl⟩ := mem_all.mp listed
  obtain ⟨known, same⟩ := mem_column.mp member
  rw [mem_skipped, same]
  exact and_iff_right known

/-- The ranks before one in the order of the columns are those below it. -/
theorem mem_before {rank other : Int} (split : graph.ranks = before ++ rank :: after)
    (member : other ∈ graph.ranks) :
    (other ∈ before ↔ other < rank) ∧ (other ∈ before ++ [rank] ↔ other ≤ rank) := by
  have sorted := ranks_pairwise graph
  rw [split] at sorted member
  obtain ⟨-, later, earlier⟩ := List.pairwise_append.mp sorted
  obtain ⟨above, -⟩ := List.pairwise_cons.mp later
  have below : ∀ one ∈ before, one < rank := fun one listed =>
    earlier one listed rank List.mem_cons_self
  have cases : other ∈ before ∨ other = rank ∨ other ∈ after := by
    simpa using member
  have first : other ∈ before ↔ other < rank := by
    refine ⟨below other, fun less => cases.resolve_right ?_⟩
    rintro (rfl | listed)
    · exact lt_irrefl _ less
    · exact lt_asymm less (above other listed)
  refine ⟨first, ?_⟩
  rw [List.mem_append, List.mem_singleton, first, le_iff_lt_or_eq]

theorem rank_mem (member : v ∈ graph.nodes) : graph.rank v ∈ graph.ranks :=
  mem_ranks.mpr ⟨v, member, rfl⟩

end Columns

/-! ## Edges between columns -/

variable {column : List V}

section Edges

variable [DecidableEq V] {graph : Graph V}

theorem mem_inEdges {e : Edge V} : e ∈ graph.inEdges v ↔ e ∈ graph.edges ∧ e.w = v := by
  simp [Graph.inEdges]

theorem mem_outEdges {e : Edge V} : e ∈ graph.outEdges v ↔ e ∈ graph.edges ∧ e.v = v := by
  simp [Graph.outEdges]

/-- The edges from the ranks before a cut to those after it. -/
def cut (graph : Graph V) (before : List Int) : List (Edge V) :=
  graph.edges.filter fun e => graph.rank e.v ∈ before ∧ graph.rank e.w ∉ before

variable (layered : graph.Layered)

include layered

theorem column_nodup (rank : Int) : (graph.column rank).Nodup :=
  (column_perm graph rank).nodup_iff.mpr (layered.nodup.filter _)

theorem outEdges_column {rank : Int} (split : graph.ranks = before ++ rank :: after) :
    ((graph.column rank).flatMap graph.outEdges).Perm (cut graph (before ++ [rank])) := by
  have gathered := Listing.flatMap_filter_perm Edge.v graph.edges (column_nodup layered rank)
  refine gathered.trans (List.Perm.of_eq (List.filter_congr fun e member => ?_))
  obtain ⟨start, stop⟩ := layered.mem e member
  obtain ⟨u, known, at_rank⟩ := mem_ranks.mp (split ▸ by simp : rank ∈ graph.ranks)
  have between := layered.next e member u known
  have less := layered.lt e member
  rw [decide_eq_decide, mem_column, (mem_before split (rank_mem start)).2,
    (mem_before split (rank_mem stop)).2]
  constructor
  · rintro ⟨-, same⟩
    omega
  · rintro ⟨low, high⟩
    exact ⟨start, by omega⟩

theorem inEdges_column {rank : Int} (split : graph.ranks = before ++ rank :: after) :
    ((graph.column rank).flatMap graph.inEdges).Perm (cut graph before) := by
  have gathered := Listing.flatMap_filter_perm Edge.w graph.edges (column_nodup layered rank)
  refine gathered.trans (List.Perm.of_eq (List.filter_congr fun e member => ?_))
  obtain ⟨start, stop⟩ := layered.mem e member
  obtain ⟨u, known, at_rank⟩ := mem_ranks.mp (split ▸ by simp : rank ∈ graph.ranks)
  have between := layered.next e member u known
  have less := layered.lt e member
  rw [decide_eq_decide, mem_column, (mem_before split (rank_mem start)).1,
    (mem_before split (rank_mem stop)).1]
  constructor
  · rintro ⟨-, same⟩
    omega
  · rintro ⟨low, high⟩
    exact ⟨stop, by omega⟩

/-- Neighbouring columns: the edges out of one are those into the other. -/
def Meets (graph : Graph V) (column next : List V) : Prop :=
  (column.flatMap graph.outEdges).Perm (next.flatMap graph.inEdges)

theorem isChain_meets (split : graph.ranks = before ++ after)
    (out : (column.flatMap graph.outEdges).Perm (cut graph before)) :
    (column :: (after.map graph.column ++ [[]])).IsChain (Meets graph) := by
  induction after generalizing before column with
  | nil =>
      -- no edge leaves the last column
      have none : cut graph before = [] := by
        rw [List.append_nil] at split
        refine List.filter_eq_nil_iff.mpr fun e member => ?_
        simp [← split, rank_mem (layered.mem e member).2]
      rw [none] at out
      exact List.isChain_pair.mpr out
  | cons rank after ih =>
      refine List.isChain_cons_cons.mpr ⟨out.trans (inEdges_column layered split).symm, ?_⟩
      exact ih (by rw [split, List.append_assoc, List.singleton_append])
        (outEdges_column layered split)

/-- Every edge joins neighbouring columns. -/
theorem all_meet : ([] :: (graph.all ++ [[]])).IsChain (Meets graph) := by
  refine isChain_meets layered (List.nil_append _).symm ?_
  simp [cut]

end Edges

/-! ## Walks through skipped columns -/

/-- How many nodes are further on. -/
def ahead (graph : Graph V) (side : Side) (v : V) : Nat :=
  (graph.nodes.filter fun u =>
    match side with
    | .left => graph.rank u < graph.rank v
    | .right => graph.rank v < graph.rank u).length

theorem ahead_le (graph : Graph V) (side : Side) (v : V) :
    ahead graph side v ≤ graph.nodes.length :=
  List.length_filter_le _ _

section Walks

variable [DecidableEq V] {graph : Graph V} (layered : graph.Layered) {side : Side}

theorem walk_of_not_skipped (real : v ∉ graph.skipped) : walk graph side v = some v := by
  have ends : walkPass graph side v = .done (some v) := if_neg real
  rw [walk, Pass.loop_done ends]
  rfl

include layered

/-- A dummy that is skipped has one edge on each side. -/
theorem edgesOf_skipped (side : Side) (member : v ∈ graph.skipped) :
    ∃ e, side.edgesOf graph v = [e] ∧ e ∈ graph.edges := by
  cases side with
  | left =>
      obtain ⟨e, only⟩ := layered.one_in v member
      exact ⟨e, only, (mem_inEdges.mp (only ▸ List.mem_singleton_self e)).1⟩
  | right =>
      obtain ⟨e, only⟩ := layered.one_out v member
      exact ⟨e, only, (mem_outEdges.mp (only ▸ List.mem_singleton_self e)).1⟩

theorem ahead_lt {e : Edge V} (member : e ∈ side.edgesOf graph v) :
    side.endOf e ∈ graph.nodes ∧ ahead graph side (side.endOf e) < ahead graph side v := by
  cases side with
  | left =>
      obtain ⟨listed, rfl⟩ := mem_inEdges.mp member
      have less := layered.lt e listed
      refine ⟨(layered.mem e listed).1, Listing.length_filter_lt (layered.mem e listed).1 ?_ ?_ ?_⟩
      · intro u _ below
        exact decide_eq_true (lt_trans (of_decide_eq_true below) less)
      · exact decide_eq_true less
      · exact decide_eq_false (lt_irrefl _)
  | right =>
      obtain ⟨listed, rfl⟩ := mem_outEdges.mp member
      have less := layered.lt e listed
      refine ⟨(layered.mem e listed).2, Listing.length_filter_lt (layered.mem e listed).2 ?_ ?_ ?_⟩
      · intro u _ above
        exact decide_eq_true (lt_trans less (of_decide_eq_true above))
      · exact decide_eq_true less
      · exact decide_eq_false (lt_irrefl _)

/-- Every walk ends at a node that is not skipped. -/
theorem loop_walkPass (side : Side) {fuel : Nat} (known : v ∈ graph.nodes)
    (enough : ahead graph side v < fuel) :
    ∃ n, Pass.loop (walkPass graph side) fuel v = some (some n) ∧ n ∈ graph.nodes ∧
      n ∉ graph.skipped := by
  have ended := @Pass.loop_total _ _ (walkPass graph side) (fun v => v ∈ graph.nodes)
    (ahead graph side)
    (fun _ outcome => ∃ n, outcome = some n ∧ n ∈ graph.nodes ∧ n ∉ graph.skipped)
    ?_ ?_ _ _ known enough
  · obtain ⟨outcome, found, n, rfl, listed, real⟩ := ended
    exact ⟨n, found, listed, real⟩
  · intro v next known goesOn
    rw [walkPass] at goesOn
    split at goesOn
    · rename_i member
      obtain ⟨e, only, -⟩ := edgesOf_skipped layered side member
      rw [only] at goesOn
      obtain rfl := Pass.again.inj goesOn
      have further := ahead_lt layered (only ▸ List.mem_singleton_self e)
      exact ⟨further.1, further.2, fun _ answer => answer⟩
    · cases goesOn
  · intro v outcome known ends
    rw [walkPass] at ends
    split at ends
    · rename_i member
      obtain ⟨e, only, -⟩ := edgesOf_skipped layered side member
      rw [only] at ends
      cases ends
    · rename_i real
      obtain rfl := Pass.done.inj ends
      exact ⟨v, rfl, known, real⟩

theorem walk_mem (side : Side) (known : v ∈ graph.nodes) :
    ∃ n, walk graph side v = some n ∧ n ∈ graph.nodes ∧ n ∉ graph.skipped := by
  obtain ⟨n, found, listed, real⟩ :=
    loop_walkPass layered side known (Nat.lt_succ_of_le (ahead_le graph side v))
  exact ⟨n, by rw [walk, found]; rfl, listed, real⟩

/-- A walk from a dummy that is skipped goes on along its one edge. -/
theorem walk_of_skipped (member : v ∈ graph.skipped) {e : Edge V}
    (only : side.edgesOf graph v = [e]) : walk graph side v = walk graph side (side.endOf e) := by
  have goesOn : walkPass graph side v = .again (side.endOf e) := by
    rw [walkPass, if_pos member, only]
  have further := ahead_lt layered (only ▸ List.mem_singleton_self e : e ∈ side.edgesOf graph v)
  obtain ⟨n, found, -⟩ := loop_walkPass layered side further.1
    (Nat.lt_of_lt_of_le further.2 (ahead_le graph side v))
  rw [walk, walk, Pass.loop_again goesOn, found, Pass.loop_succ found]

omit layered

/-- Where a walk ends. -/
def reach (graph : Graph V) (side : Side) (v : V) : V := (walk graph side v).getD v

theorem reach_of_not_skipped (real : v ∉ graph.skipped) : reach graph side v = v := by
  rw [reach, walk_of_not_skipped real, Option.getD_some]

include layered

theorem walk_eq_reach (side : Side) (known : v ∈ graph.nodes) :
    walk graph side v = some (reach graph side v) := by
  obtain ⟨n, found, -⟩ := walk_mem layered side known
  rw [reach, found, Option.getD_some]

theorem reach_of_skipped (member : v ∈ graph.skipped) {e : Edge V}
    (only : side.edgesOf graph v = [e]) : reach graph side v = reach graph side (side.endOf e) := by
  have further := ahead_lt layered (only ▸ List.mem_singleton_self e : e ∈ side.edgesOf graph v)
  have same := walk_of_skipped layered member only
  rw [walk_eq_reach layered side further.1] at same
  rw [reach, same, Option.getD_some]

theorem reach_left_of_skipped (member : v ∈ graph.skipped) {e : Edge V}
    (only : graph.inEdges v = [e]) : reach graph .left v = reach graph .left e.v :=
  @reach_of_skipped _ _ _ _ layered .left member _ only

theorem reach_right_of_skipped (member : v ∈ graph.skipped) {e : Edge V}
    (only : graph.outEdges v = [e]) : reach graph .right v = reach graph .right e.w :=
  @reach_of_skipped _ _ _ _ layered .right member _ only

/-! ## Links -/

/-- The links of a node: each of its edges, walked to its end. -/
def linksOf (graph : Graph V) (side : Side) (v : V) : List (Link V) :=
  (side.edgesOf graph v).map fun e => ⟨reach graph side (side.endOf e), e.weighs⟩

theorem through_eq (side : Side) (v : V) : through graph side v = some (linksOf graph side v) := by
  refine Listing.mapM_eq_some fun e member => ?_
  rw [walk_eq_reach layered side (ahead_lt layered member).1, Option.map_some]

theorem links_eq (side : Side) : links graph side = some (linksOf graph side) := by
  rw [links, if_pos]
  · exact congrArg some (funext fun v => by rw [through_eq layered, Option.getD_some])
  · rw [List.all_eq_true]
    intro v _
    rw [through_eq layered]
    rfl

omit layered

/-- An edge, with its ends walked on to real columns. -/
def strandOf (graph : Graph V) (e : Edge V) : Strand V :=
  ⟨reach graph .left e.v, reach graph .right e.w, e.weighs⟩

theorem strands_right (real : ∀ v ∈ column, v ∉ graph.skipped) :
    strands (linksOf graph .right) column =
      (column.flatMap graph.outEdges).map (strandOf graph) := by
  rw [List.map_flatMap]
  refine List.flatMap_congr fun v member => ?_
  rw [linksOf, List.map_map]
  refine List.map_congr_left fun e listed => ?_
  obtain ⟨-, rfl⟩ := mem_outEdges.mp listed
  rw [strandOf, reach_of_not_skipped (real _ member)]
  rfl

theorem strands_left (real : ∀ v ∈ column, v ∉ graph.skipped) :
    (strands (linksOf graph .left) column).map Strand.flip =
      (column.flatMap graph.inEdges).map (strandOf graph) := by
  rw [strands, List.map_flatMap, List.map_flatMap]
  refine List.flatMap_congr fun v member => ?_
  rw [linksOf, List.map_map, List.map_map]
  refine List.map_congr_left fun e listed => ?_
  obtain ⟨-, rfl⟩ := mem_inEdges.mp listed
  rw [strandOf, reach_of_not_skipped (real _ member)]
  rfl

include layered

/-- The edges into a skipped column are those out of it. -/
theorem map_strandOf_skipped (skips : ∀ v ∈ column, v ∈ graph.skipped) :
    (column.flatMap graph.inEdges).map (strandOf graph) =
      (column.flatMap graph.outEdges).map (strandOf graph) := by
  rw [List.map_flatMap, List.map_flatMap]
  refine List.flatMap_congr fun v member => ?_
  obtain ⟨e, onlyIn⟩ := layered.one_in v (skips v member)
  obtain ⟨f, onlyOut⟩ := layered.one_out v (skips v member)
  have eMem := onlyIn ▸ List.mem_singleton_self e
  have fMem := onlyOut ▸ List.mem_singleton_self f
  have even := layered.even v (skips v member) e eMem f fMem
  have backwards := reach_left_of_skipped layered (skips v member) onlyIn
  have onwards := reach_right_of_skipped layered (skips v member) onlyOut
  obtain ⟨-, rfl⟩ := mem_inEdges.mp eMem
  obtain ⟨-, start⟩ := mem_outEdges.mp fMem
  rw [onlyIn, onlyOut, List.map_singleton, List.map_singleton, strandOf, strandOf, start, onwards,
    backwards, even]

theorem isChain_joined {columns : List (List V)} {column last : List V}
    (known : ∀ layer ∈ columns, layer ∈ graph.all)
    (meets : (column :: (columns ++ [[]])).IsChain (Meets graph))
    (out : (strands (linksOf graph .right) last).Perm
      ((column.flatMap graph.outEdges).map (strandOf graph))) :
    (last :: (columns.filter (fun layer => !graph.isPassing layer) ++ [[]])).IsChain
      (Linked (linksOf graph .left) (linksOf graph .right)) := by
  induction columns generalizing column last with
  | nil =>
      have none := List.isChain_pair.mp meets
      exact List.isChain_pair.mpr (out.trans (none.map _))
  | cons next columns ih =>
      obtain ⟨here, later⟩ := List.forall_mem_cons.mp known
      obtain ⟨meet, rest⟩ := List.isChain_cons_cons.mp meets
      have arrives := out.trans (meet.map (strandOf graph))
      cases passes : graph.isPassing next with
      | true =>
          rw [List.filter_cons_of_neg (by simp [passes])]
          refine ih later rest ?_
          rwa [← map_strandOf_skipped layered fun v member =>
            (isPassing_of_mem here member).mpr passes]
      | false =>
          have real : ∀ v ∈ next, v ∉ graph.skipped := by
            intro v member
            rw [isPassing_of_mem here member, passes]
            exact Bool.false_ne_true
          rw [List.filter_cons_of_pos (by simp [passes]), List.cons_append]
          refine List.isChain_cons_cons.mpr ⟨?_, ih later rest ?_⟩
          · rwa [Linked, strands_left real]
          · rw [strands_right real]

theorem all_nodup : graph.all.flatten.Nodup := by
  rw [List.nodup_flatten]
  constructor
  · intro layer member
    obtain ⟨v, -, rfl⟩ := mem_all.mp member
    exact column_nodup layered _
  · rw [Graph.all, List.pairwise_map]
    refine (ranks_pairwise graph).imp fun less => ?_
    intro v first second
    rw [mem_column] at first second
    omega

theorem layered_layers :
    Crossings.Layered (linksOf graph .left) (linksOf graph .right) graph.layers where
  nodup := by
    obtain ⟨each, apart⟩ := List.nodup_flatten.mp (all_nodup layered)
    exact List.nodup_flatten.mpr ⟨fun layer member => each layer (List.mem_of_mem_filter member),
      apart.sublist List.filter_sublist⟩
  joined := isChain_joined layered (fun _ member => member) (all_meet layered) (.refl _)

end Walks

end ColumnOrder
end Fghj
