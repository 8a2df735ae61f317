import Fghj.ColumnOrder
import Mathlib.Data.List.GetD

/-!
# Runs of the column order

Every state of a run has each real column in some order, in which its groups are blocks, and the
positions are those of this order. From such a state a swap changes the crossings by the two costs
it compares.
-/

namespace Fghj
namespace ColumnOrder

open Crossings

variable {V κ : Type} [DecidableEq V]

/-! ## Positions -/

section Positions

variable {pos : V → Nat} {layer : List V} {layers : List (List V)} {v : V}

theorem idxOf?_of_mem (member : v ∈ layer) : layer.idxOf? v = some (layer.idxOf v) := by
  induction layer with
  | nil => cases member
  | cons u layer ih =>
      rw [List.idxOf?_cons, List.idxOf_cons]
      by_cases same : u = v
      · simp [same]
      · have later : v ∈ layer := (List.mem_cons.mp member).resolve_left (Ne.symm same)
        rw [if_neg (by simpa using same), beq_false_of_ne same, ih later]
        rfl

theorem index_of_mem (pos : V → Nat) (member : v ∈ layer) : index pos layer v = layer.idxOf v := by
  rw [index, idxOf?_of_mem member]

theorem index_of_not_mem (pos : V → Nat) (absent : v ∉ layer) : index pos layer v = pos v := by
  have none : layer.idxOf? v = none := List.idxOf?_eq_none_iff.mpr absent
  rw [index, none]

/-- The positions are those of the columns. -/
def Placed (pos : V → Nat) (layers : List (List V)) : Prop :=
  ∀ layer ∈ layers, ∀ v ∈ layer, pos v = layer.idxOf v

theorem foldl_index_of_not_mem (pos : V → Nat) (absent : v ∉ layers.flatten) :
    layers.foldl index pos v = pos v := by
  induction layers generalizing pos with
  | nil => rfl
  | cons layer layers ih =>
      rw [List.flatten_cons, List.mem_append, not_or] at absent
      rw [List.foldl_cons, ih _ absent.2, index_of_not_mem pos absent.1]

theorem placed_foldl_index (pos : V → Nat) (nodup : layers.flatten.Nodup) :
    Placed (layers.foldl index pos) layers := by
  induction layers generalizing pos with
  | nil => exact fun layer member => absurd member List.not_mem_nil
  | cons layer layers ih =>
      rw [List.flatten_cons] at nodup
      obtain ⟨-, rest, apart⟩ := List.nodup_append.mp nodup
      refine List.forall_mem_cons.mpr ⟨fun v member => ?_, ih _ rest⟩
      have absent : v ∉ layers.flatten := fun inside => apart v member v inside rfl
      rw [List.foldl_cons, foldl_index_of_not_mem _ absent, index_of_mem pos member]

theorem Placed.pairwise (placed : Placed pos layers) (listed : layer ∈ layers)
    (nodup : layer.Nodup) : layer.Pairwise fun u v => pos u < pos v := by
  rw [List.pairwise_iff_getElem]
  intro i j small large less
  rw [placed layer listed _ (List.getElem_mem _), placed layer listed _ (List.getElem_mem _),
    nodup.idxOf_getElem, nodup.idxOf_getElem]
  exact less

end Positions

/-! ## States of a run -/

section States

variable {left right : V → List (Link V)} {cols : List (List V)} {pos : V → Nat}

/-- Each column in some order, and the positions of this order. -/
structure Standing (cols : List (List V)) (layers : List (List V)) (pos : V → Nat) : Prop where
  perm : List.Forall₂ List.Perm layers cols
  placed : Placed pos layers

/-- What the record says: every swap lowered the crossings by the difference of the costs it
compared, and no pass raised them. -/
structure Booked (right : V → List (Link V)) (cols : List (List V)) (board : Board V) : Prop where
  swaps : ∀ swap ∈ board.swaps, swap.swapped < swap.kept ∧
    crossings right swap.now cols + swap.kept = crossings right swap.was cols + swap.swapped
  passes : ∀ pass ∈ board.passes, crossings right pass.2 cols ≤ crossings right pass.1 cols

variable (layered : Layered left right cols)

include layered

theorem Standing.nodup {layers : List (List V)} (standing : Standing cols layers pos) :
    layers.flatten.Nodup :=
  (layered.of_perm standing.perm).nodup

/-- One column is put into another order and its positions are taken. -/
theorem Standing.index {before after : List (List V)} {layer other : List V}
    (standing : Standing cols (before ++ layer :: after) pos) (perm : other.Perm layer) :
    Standing cols (before ++ other :: after) (ColumnOrder.index pos other) where
  perm := forall₂_trans (forall₂_replace perm) standing.perm
  placed := by
    have nodup := standing.nodup layered
    rw [List.flatten_append, List.flatten_cons] at nodup
    obtain ⟨-, rest, apartBefore⟩ := List.nodup_append.mp nodup
    obtain ⟨-, -, apartAfter⟩ := List.nodup_append.mp rest
    intro column listed v member
    rcases List.mem_append.mp listed with earlier | later
    · have absent : v ∉ other := fun inside =>
        apartBefore v (List.mem_flatten.mpr ⟨column, earlier, member⟩) v
          (List.mem_append_left _ (perm.subset inside)) rfl
      rw [index_of_not_mem pos absent]
      exact standing.placed column (List.mem_append_left _ earlier) v member
    · rcases List.mem_cons.mp later with rfl | later
      · exact index_of_mem pos member
      · have absent : v ∉ other := fun inside =>
          apartAfter v (perm.subset inside) v (List.mem_flatten.mpr ⟨column, later, member⟩) rfl
        rw [index_of_not_mem pos absent]
        exact standing.placed column (List.mem_append_right _ (List.mem_cons_of_mem _ later)) v
          member

theorem Standing.pairwise {layers : List (List V)} (standing : Standing cols layers pos)
    {layer : List V} (listed : layer ∈ layers) : layer.Pairwise fun u v => pos u < pos v :=
  standing.placed.pairwise listed (List.nodup_flatten.mp (standing.nodup layered) |>.1 layer listed)

/-- A swap of two neighbouring segments of a column changes the crossings by the costs of the one
above the other. -/
theorem Standing.exchange {before after : List (List V)} {front one two back : List V}
    (standing : Standing cols (before ++ (front ++ one ++ two ++ back) :: after) pos) :
    Standing cols (before ++ (front ++ two ++ one ++ back) :: after)
        (ColumnOrder.index pos (front ++ two ++ one ++ back)) ∧
      crossings right (ColumnOrder.index pos (front ++ two ++ one ++ back)) cols +
          blockCost left right pos one two =
        crossings right pos cols + blockCost left right pos two one := by
  have perm : (front ++ two ++ one ++ back).Perm (front ++ one ++ two ++ back) := by
    simp only [List.append_assoc]
    exact (List.perm_append_comm_assoc two one back).append_left front
  have next := standing.index layered perm
  refine ⟨next, ?_⟩
  have exchanged := total_exchange (layered.of_perm standing.perm)
    (standing.pairwise layered (by simp)) (next.pairwise layered (by simp))
    (fun v absent => index_of_not_mem pos fun inside => absent (perm.subset inside))
  rwa [total_perm next.perm, total_perm standing.perm] at exchanged

omit layered

/-- A board with the columns in some order, and no more crossings than another. -/
structure Improved (right : V → List (Link V)) (cols layers : List (List V))
    (board next : Board V) : Prop where
  standing : Standing cols layers next.pos
  booked : Booked right cols next
  le : crossings right next.pos cols ≤ crossings right board.pos cols

theorem Improved.trans {layers others : List (List V)} {board next last : Board V}
    (first : Improved right cols layers board next)
    (second : Improved right cols others next last) : Improved right cols others board last :=
  ⟨second.standing, second.booked, second.le.trans first.le⟩

/-- The items of a column are segments of it, and what they cost is what their nodes cost. -/
structure Segments {β : Type} (left right : V → List (Link V)) (cost : (V → Nat) → β → β → Nat)
    (flat : List β → List V) (nodesOf : β → List V) : Prop where
  split : ∀ done x y rest, ∃ front back,
    flat (done ++ x :: y :: rest) = front ++ nodesOf x ++ nodesOf y ++ back ∧
      flat (done ++ y :: x :: rest) = front ++ nodesOf y ++ nodesOf x ++ back
  cost_eq : ∀ pos x y, cost pos x y = blockCost left right pos (nodesOf x) (nodesOf y)

section Swapping

variable {β : Type} {cost : (V → Nat) → β → β → Nat} {flat : List β → List V}
  {nodesOf : β → List V} {before after : List (List V)} {board : Board V}

include layered

theorem swapRun_spec (segments : Segments left right cost flat nodesOf) {done : List β} {x : β}
    {rest : List β}
    (standing : Standing cols (before ++ flat (done ++ x :: rest) :: after) board.pos)
    (booked : Booked right cols board) :
    (swapRun cost flat done x rest board).1.Perm (done ++ x :: rest) ∧
      Improved right cols (before ++ flat (swapRun cost flat done x rest board).1 :: after) board
        (swapRun cost flat done x rest board).2.2 := by
  induction rest generalizing done x board with
  | nil => exact ⟨.refl _, standing, booked, Nat.le_refl _⟩
  | cons y rest ih =>
      by_cases less : cost board.pos y x < cost board.pos x y
      · obtain ⟨front, back, shape, turned⟩ := segments.split done x y rest
        rw [shape] at standing
        obtain ⟨next, exchanged⟩ := standing.exchange layered
        rw [← turned, ← segments.cost_eq, ← segments.cost_eq] at exchanged
        rw [← turned] at next
        have record : Booked right cols
            { board with
              pos := index board.pos (flat (done ++ y :: x :: rest))
              swaps := board.swaps ++ [⟨board.pos, index board.pos (flat (done ++ y :: x :: rest)),
                cost board.pos x y, cost board.pos y x⟩] } := by
          refine ⟨?_, booked.passes⟩
          rw [List.forall_mem_append, List.forall_mem_singleton]
          exact ⟨booked.swaps, less, exchanged⟩
        have regroup : done ++ y :: x :: rest = done ++ [y] ++ x :: rest := by simp
        rw [regroup] at next record
        obtain ⟨perm, improved⟩ := ih next record
        simp only [swapRun, if_pos less, regroup]
        refine ⟨perm.trans ?_, improved.standing, improved.booked, improved.le.trans ?_⟩
        · rw [← regroup]
          exact (List.Perm.swap x y rest).append_left done
        · rw [← regroup]
          change crossings right (index board.pos _) cols ≤ crossings right board.pos cols
          omega
      · have regroup : done ++ x :: y :: rest = done ++ [x] ++ y :: rest := by simp
        rw [regroup] at standing ⊢
        rw [swapRun, if_neg less]
        exact ih standing booked

theorem swapAll_spec (segments : Segments left right cost flat nodesOf) {items : List β}
    (standing : Standing cols (before ++ flat items :: after) board.pos)
    (booked : Booked right cols board) :
    (swapAll cost flat items board).1.Perm items ∧
      Improved right cols (before ++ flat (swapAll cost flat items board).1 :: after) board
        (swapAll cost flat items board).2.2 := by
  cases items with
  | nil => exact ⟨.refl _, standing, booked, Nat.le_refl _⟩
  | cons x rest =>
      change (swapRun cost flat [] x rest board).1.Perm ([] ++ x :: rest) ∧ _
      exact swapRun_spec layered segments standing booked

end Swapping

omit [DecidableEq V] in
theorem segments_blocks : Segments left right (blockCost left right) List.flatten id where
  split := by
    intro done x y rest
    exact ⟨done.flatten, rest.flatten, by simp, by simp⟩
  cost_eq := fun _ _ _ => rfl

omit [DecidableEq V] in
theorem segments_cards (done blocks : List (List V)) :
    Segments left right (pairCost left right)
      (fun cards => done.flatten ++ cards ++ blocks.flatten) fun v => [v] where
  split := by
    intro front x y rest
    exact ⟨done.flatten ++ front, rest ++ blocks.flatten, by simp, by simp⟩
  cost_eq := by
    intro pos x y
    simp [blockCost, between]

/-! ## Sorting a column -/

section Sorting

variable [LinearOrder κ]

/-- A column made of one block per group. -/
def Grouped (groupOf : V → Option V) (layer : List V) : Prop :=
  ∃ blocks, Grouping.Blocks (group groupOf) blocks ∧ blocks.flatten = layer

theorem grouped_blocksOf (groupOf : V → Option V) (layer : List V) :
    Grouped groupOf (blocksOf groupOf layer).flatten :=
  ⟨_, Grouping.grouped_blocks layer, rfl⟩

theorem sortLayer_spec (groupOf : V → Option V) (keys : Keys κ V) (pos : V → Nat) (layer : List V) :
    Grouped groupOf (sortLayer groupOf keys pos layer) ∧
      (sortLayer groupOf keys pos layer).Perm layer := by
  set sorted := fun members : List V =>
    ({ cards := members.insertionSort fun a b =>
        keys.card a < keys.card b ∨ keys.card a = keys.card b ∧ pos a ≤ pos b
       key := keys.block members
       first := (members.map pos).min?.getD 0 } : Keyed κ V) with sorted_eq
  have blocks : List.Forall₂ List.Perm
      (((blocksOf groupOf layer).map sorted).map Keyed.cards) (blocksOf groupOf layer) := by
    rw [List.map_map, List.forall₂_map_left_iff, List.forall₂_same]
    exact fun members _ => List.perm_insertionSort _ members
  have perm := (List.perm_insertionSort (fun a b : Keyed κ V => a.key < b.key ∨
    a.key = b.key ∧ a.first ≤ b.first) ((blocksOf groupOf layer).map sorted)).map Keyed.cards
  constructor
  · exact ⟨_, ((Grouping.grouped_blocks layer).of_forall₂ blocks).of_perm perm, rfl⟩
  · exact (perm.flatten.trans (List.Perm.flatten_congr blocks)).trans (Grouping.blocks_perm layer)

end Sorting

/-! ## Passes -/

section Passes

variable {groupOf : V → Option V} {before after : List (List V)} {board : Board V}

include layered

theorem swapCards_spec {done blocks : List (List V)}
    (standing : Standing cols (before ++ (done ++ blocks).flatten :: after) board.pos)
    (booked : Booked right cols board) :
    List.Forall₂ List.Perm (swapCards left right done blocks board).1 (done ++ blocks) ∧
      Improved right cols (before ++ (swapCards left right done blocks board).1.flatten :: after)
        board (swapCards left right done blocks board).2.2 := by
  induction blocks generalizing done board with
  | nil =>
      rw [List.append_nil] at standing ⊢
      exact ⟨List.forall₂_same.mpr fun _ _ => .refl _, standing, booked, Nat.le_refl _⟩
  | cons cards blocks ih =>
      have shape : ∀ cards : List V,
          (done ++ [cards] ++ blocks).flatten = done.flatten ++ cards ++ blocks.flatten := by
        simp
      have regroup : done ++ cards :: blocks = done ++ [cards] ++ blocks := by simp
      rw [regroup, shape] at standing
      obtain ⟨perm, improved⟩ := swapAll_spec layered (segments_cards done blocks) standing booked
      have next := improved.standing
      rw [← shape] at next
      obtain ⟨perms, others⟩ := ih next improved.booked
      simp only [swapCards]
      refine ⟨forall₂_trans perms ?_, improved.trans others⟩
      rw [List.append_assoc, List.singleton_append]
      exact forall₂_replace perm

theorem swapPass_spec {layer : List V} (grouped : Grouped groupOf layer)
    (standing : Standing cols (before ++ layer :: after) board.pos)
    (booked : Booked right cols board) :
    Grouped groupOf (swapPass groupOf left right layer board).1 ∧
      Improved right cols (before ++ (swapPass groupOf left right layer board).1 :: after) board
        (swapPass groupOf left right layer board).2.2 := by
  obtain ⟨blocks, grouping, rfl⟩ := grouped
  have own : blocksOf groupOf blocks.flatten = blocks := grouping.blocks_flatten
  obtain ⟨perm, first⟩ := swapAll_spec layered segments_blocks standing booked
  obtain ⟨perms, second⟩ := @swapCards_spec _ _ _ _ _ layered _ _ _ [] _ first.standing first.booked
  have both := first.trans second
  simp only [swapPass, own]
  refine ⟨⟨_, (grouping.of_perm perm).of_forall₂ perms, rfl⟩, both.standing,
    ⟨both.booked.swaps, ?_⟩, both.le⟩
  rw [List.forall_mem_append, List.forall_mem_singleton]
  exact ⟨both.booked.passes, both.le⟩

theorem swapLayers_spec {layers : List (List V)} (grouped : ∀ layer ∈ layers, Grouped groupOf layer)
    (standing : Standing cols (before ++ layers) board.pos) (booked : Booked right cols board) :
    (∀ layer ∈ (swapLayers groupOf left right layers board).1, Grouped groupOf layer) ∧
      Improved right cols (before ++ (swapLayers groupOf left right layers board).1) board
        (swapLayers groupOf left right layers board).2.2 := by
  induction layers generalizing before board with
  | nil => exact ⟨grouped, standing, booked, Nat.le_refl _⟩
  | cons layer layers ih =>
      obtain ⟨here, later⟩ := List.forall_mem_cons.mp grouped
      obtain ⟨own, first⟩ := swapPass_spec layered here standing booked
      have next := first.standing
      rw [← List.singleton_append, ← List.append_assoc] at next
      obtain ⟨others, second⟩ := ih later next first.booked
      simp only [swapLayers]
      refine ⟨List.forall_mem_cons.mpr ⟨own, others⟩, ?_⟩
      rw [← List.singleton_append, ← List.append_assoc]
      exact first.trans second

/-- Each column in some order, in which its groups are blocks, with the positions of this order. -/
structure Good (groupOf : V → Option V) (right : V → List (Link V)) (cols layers : List (List V))
    (board : Board V) : Prop where
  grouped : ∀ layer ∈ layers, Grouped groupOf layer
  standing : Standing cols layers board.pos
  booked : Booked right cols board

theorem Good.swapPasses {layers : List (List V)} (good : Good groupOf right cols layers board)
    (count : Nat) :
    Good groupOf right cols (ColumnOrder.swapPasses groupOf left right count layers board).1
      (ColumnOrder.swapPasses groupOf left right count layers board).2 := by
  induction count generalizing layers board with
  | zero => exact good
  | succ count ih =>
      obtain ⟨grouped, improved⟩ :=
        @swapLayers_spec _ _ _ _ _ layered groupOf [] _ _ good.grouped good.standing good.booked
      have next : Good groupOf right cols (swapLayers groupOf left right layers board).1
          (swapLayers groupOf left right layers board).2.2 :=
        ⟨grouped, improved.standing, improved.booked⟩
      simp only [ColumnOrder.swapPasses]
      split
      · exact ih next
      · exact next

theorem Good.sortLayers [LinearOrder κ] {layers : List (List V)}
    (good : Good groupOf right cols layers board) (keys : Nat → Keys κ V) (order : List Nat) :
    Good groupOf right cols (ColumnOrder.sortLayers groupOf keys order layers board).1
      (ColumnOrder.sortLayers groupOf keys order layers board).2 := by
  induction order generalizing layers board with
  | nil => exact good
  | cons r order ih =>
      simp only [ColumnOrder.sortLayers]
      obtain ⟨grouped, perm⟩ := sortLayer_spec groupOf (keys r) board.pos (layers.getD r [])
      refine ih ?_
      by_cases inside : r < layers.length
      · have split : layers.take r ++ layers[r] :: layers.drop (r + 1) = layers := by
          rw [← List.drop_eq_getElem_cons inside, List.take_append_drop]
        rw [List.getD_eq_getElem layers [] inside] at grouped perm ⊢
        rw [List.set_eq_take_append_cons_drop, if_pos inside]
        have standing := good.standing
        rw [← split] at standing
        refine ⟨?_, standing.index layered perm, good.booked.swaps, good.booked.passes⟩
        rw [List.forall_mem_append, List.forall_mem_cons]
        exact ⟨fun layer member => good.grouped layer (List.mem_of_mem_take member), grouped,
          fun layer member => good.grouped layer (List.mem_of_mem_drop member)⟩
      · have outside := Nat.not_lt.mp inside
        rw [List.getD_eq_default layers [] outside] at perm ⊢
        rw [perm.eq_nil, List.set_eq_of_length_le outside]
        exact good

/-- The best order so far has no more crossings than the grouped order at the start. -/
structure Kept (groupOf : V → Option V) (right : V → List (Link V)) (cols : List (List V))
    (start : Nat) (run : Run V) : Prop where
  good : Good groupOf right cols run.layers run.board
  perm : List.Forall₂ List.Perm run.best cols
  grouped : ∀ layer ∈ run.best, Grouped groupOf layer
  counted : ∀ pos, Placed pos run.best → crossings right pos run.best = run.bestCrossings
  le : run.bestCrossings ≤ start

theorem crossings_congr {layers : List (List V)} (perm : List.Forall₂ List.Perm layers cols)
    {now : V → Nat} (placed : Placed pos layers) (again : Placed now layers) :
    crossings right now layers = crossings right pos layers := by
  refine total_congr (layered.of_perm perm).joined.tail fun v member => ?_
  rw [List.flatten_append, List.flatten_singleton, List.append_nil] at member
  obtain ⟨layer, listed, inside⟩ := List.mem_flatten.mp member
  rw [placed layer listed v inside, again layer listed v inside]

theorem Kept.sweep [LinearOrder κ] {start : Nat} {run : Run V}
    (kept : Kept groupOf right cols start run) (keys : Nat → Nat → Keys κ V) (i : Nat) :
    Kept groupOf right cols start (ColumnOrder.sweep groupOf left right keys i run) := by
  simp only [ColumnOrder.sweep]
  generalize (if i % 2 = 0 then List.range run.layers.length
    else (List.range run.layers.length).reverse).tail = order
  have good := (kept.good.sortLayers layered (keys i) order).swapPasses layered maxSwapPasses
  split
  · rename_i fewer
    exact
      { good
        perm := good.standing.perm
        grouped := good.grouped
        counted := fun pos placed =>
          crossings_congr layered good.standing.perm good.standing.placed placed
        le := fewer.le.trans kept.le }
  · exact { kept with good }

theorem Kept.sweeps [LinearOrder κ] {start : Nat} {run : Run V}
    (kept : Kept groupOf right cols start run) (keys : Nat → Nat → Keys κ V) (count i : Nat) :
    Kept groupOf right cols start (ColumnOrder.sweeps groupOf left right keys count i run) := by
  induction count generalizing i run with
  | zero => exact kept
  | succ count ih =>
      rw [ColumnOrder.sweeps]
      split
      · exact ih (kept.sweep layered keys i) (i + 1)
      · exact kept

end Passes

end States

end ColumnOrder
end Fghj
