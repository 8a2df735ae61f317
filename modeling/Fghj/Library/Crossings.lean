import Mathlib.Algebra.BigOperators.Group.List.Basic
import Mathlib.Algebra.Order.Ring.Int
import Mathlib.Data.List.Chain

/-!
# Crossings in a layered drawing

The nodes of a drawing stand in columns, and its edges join neighbouring columns. Two edges cross
where their ends stand in opposite orders. The weighted number of crossings is a sum over the pairs
of nodes of a column, so what changes when two neighbouring segments of one column change places is
what the nodes of the one cost above those of the other.
-/

namespace Fghj
namespace Crossings

section Pairs

variable {α β : Type} (cost : α → α → Nat)

/-- The sum of a cost over the pairs of a list, each taken in the order of the list. -/
def pairs : List α → Nat
  | [] => 0
  | first :: rest => (rest.map (cost first)).sum + pairs rest

/-- The sum of a cost over the pairs of an item of one list and an item of another. -/
def between (front back : List α) : Nat := (front.map fun one => (back.map (cost one)).sum).sum

variable {cost}

@[simp]
theorem between_nil (back : List α) : between cost [] back = 0 := rfl

@[simp]
theorem between_cons (one : α) (front back : List α) :
    between cost (one :: front) back = (back.map (cost one)).sum + between cost front back :=
  rfl

theorem between_append_left (front middle back : List α) :
    between cost (front ++ middle) back = between cost front back + between cost middle back := by
  simp [between]

theorem between_append_right (front middle back : List α) :
    between cost front (middle ++ back) = between cost front middle + between cost front back := by
  simp [between, List.sum_map_add]

theorem between_flatMap_right (front : List α) (columns : List β) (items : β → List α) :
    between cost front (columns.flatMap items) =
      (columns.map fun column => between cost front (items column)).sum := by
  induction columns with
  | nil => simp [between]
  | cons column columns ih => rw [List.flatMap_cons, between_append_right, ih]; rfl

theorem between_congr {other : α → α → Nat} {front back : List α}
    (same : ∀ one ∈ front, ∀ two ∈ back, cost one two = other one two) :
    between cost front back = between other front back := by
  refine congrArg List.sum (List.map_congr_left fun one member => ?_)
  exact congrArg List.sum (List.map_congr_left fun two => same one member two)

theorem pairs_append (front back : List α) :
    pairs cost (front ++ back) = pairs cost front + between cost front back + pairs cost back := by
  induction front with
  | nil => simp [pairs]
  | cons one front ih =>
      rw [List.cons_append, pairs, ih, List.map_append, List.sum_append, pairs, between_cons]
      omega

theorem pairs_congr {other : α → α → Nat} {items : List α}
    (same : ∀ one ∈ items, ∀ two ∈ items, cost one two = other one two) :
    pairs cost items = pairs other items := by
  induction items with
  | nil => rfl
  | cons one items ih =>
      rw [pairs, pairs, ih fun one first two second =>
        same one (List.mem_cons_of_mem _ first) two (List.mem_cons_of_mem _ second)]
      refine congrArg (· + _) (congrArg List.sum (List.map_congr_left fun two member => ?_))
      exact same one List.mem_cons_self two (List.mem_cons_of_mem _ member)

theorem pairs_map (items : β → α) (list : List β) :
    pairs cost (list.map items) = pairs (fun one other => cost (items one) (items other)) list := by
  induction list with
  | nil => rfl
  | cons one list ih =>
      rw [List.map_cons, pairs, pairs, ih, List.map_map]
      rfl

theorem pairs_add (other : α → α → Nat) (items : List α) :
    pairs (fun one two => cost one two + other one two) items =
      pairs cost items + pairs other items := by
  induction items with
  | nil => rfl
  | cons one items ih =>
      rw [pairs, pairs, pairs, ih, List.sum_map_add]
      omega

theorem pairs_eq_zero {items : List α} (free : ∀ one ∈ items, ∀ two ∈ items, cost one two = 0) :
    pairs cost items = 0 := by
  induction items with
  | nil => rfl
  | cons one items ih =>
      rw [pairs, ih fun one first two second =>
        free one (List.mem_cons_of_mem _ first) two (List.mem_cons_of_mem _ second)]
      rw [Nat.add_zero, List.sum_eq_zero]
      intro value member
      obtain ⟨two, listed, rfl⟩ := List.mem_map.mp member
      exact free one List.mem_cons_self two (List.mem_cons_of_mem _ listed)

/-- A cost that does not depend on the order is the same for every order of the list. -/
theorem pairs_perm (even : ∀ one two, cost one two = cost two one) {items others : List α}
    (perm : items.Perm others) : pairs cost items = pairs cost others := by
  induction perm with
  | nil => rfl
  | cons one perm ih => rw [pairs, pairs, ih, (perm.map (cost one)).sum_eq]
  | swap one two rest =>
      simp only [pairs, List.map_cons, List.sum_cons, even two one]
      omega
  | trans _ _ first second => exact first.trans second

/-- Where two neighbouring segments change places, only the pairs across them change. -/
theorem pairs_exchange (front one two back : List α) :
    pairs cost (front ++ two ++ one ++ back) + between cost one two =
      pairs cost (front ++ one ++ two ++ back) + between cost two one := by
  simp only [pairs_append, between_append_left]
  omega

end Pairs

/-! ## Drawings -/

variable {V : Type}

/-- An edge, as seen from one of its ends: the other end and the weight. -/
structure Link (V : Type) where
  v : V
  w : Nat
  deriving DecidableEq

/-- An edge between two columns. -/
structure Strand (V : Type) where
  v : V
  w : V
  weight : Nat

def Strand.flip (strand : Strand V) : Strand V := ⟨strand.w, strand.v, strand.weight⟩

/-- The edges of a column on one side. -/
def strands (links : V → List (Link V)) (column : List V) : List (Strand V) :=
  column.flatMap fun u => (links u).map fun n => ⟨u, n.v, n.w⟩

/-- What two edges count: the product of their weights if they cross. -/
def crossed (pos : V → Nat) (one two : Strand V) : Nat :=
  if ((pos one.v : Int) - pos two.v) * ((pos one.w : Int) - pos two.w) < 0 then
    one.weight * two.weight
  else 0

/-- What two edges count if the first begins above the second. -/
def above (pos : V → Nat) (one two : Link V) : Nat :=
  if pos two.v < pos one.v then one.w * two.w else 0

/-- The crossings between the edges of one node and those of a node below it, on one side. -/
def sideCost (links : V → List (Link V)) (pos : V → Nat) (u v : V) : Nat :=
  between (above pos) (links u) (links v)

/-- The weighted number of crossings. -/
def total (right : V → List (Link V)) (pos : V → Nat) (layers : List (List V)) : Nat :=
  (layers.map fun layer => pairs (crossed pos) (strands right layer)).sum

variable {links left right : V → List (Link V)} {pos now : V → Nat}

theorem crossed_comm (one two : Strand V) : crossed pos one two = crossed pos two one := by
  have turned : ((pos one.v : Int) - pos two.v) * (pos one.w - pos two.w) =
      ((pos two.v : Int) - pos one.v) * (pos two.w - pos one.w) := by
    rw [← Int.neg_sub (pos two.v : Int), ← Int.neg_sub (pos two.w : Int), Int.neg_mul_neg]
  rw [crossed, crossed, turned, Nat.mul_comm]

theorem crossed_flip (one two : Strand V) :
    crossed pos one.flip two.flip = crossed pos one two := by
  rw [crossed, crossed, Int.mul_comm]
  rfl

theorem crossed_of_lt {u v : V} (less : pos u < pos v) (one two : Link V) :
    crossed pos ⟨u, one.v, one.w⟩ ⟨v, two.v, two.w⟩ = above pos one two := by
  have first : (pos u : Int) - pos v < 0 := by omega
  have sign : ((pos u : Int) - pos v) * (pos one.v - pos two.v) < 0 ↔ pos two.v < pos one.v := by
    rw [mul_neg_iff]
    omega
  simp only [crossed, above, sign]

theorem crossed_self (u : V) (one two : Link V) :
    crossed pos ⟨u, one.v, one.w⟩ ⟨u, two.v, two.w⟩ = 0 := by
  rw [crossed, if_neg]
  simp

variable {column : List V}

theorem mem_of_strands {strand : Strand V} (member : strand ∈ strands links column) :
    strand.v ∈ column := by
  obtain ⟨u, listed, inside⟩ := List.mem_flatMap.mp member
  obtain ⟨n, -, rfl⟩ := List.mem_map.mp inside
  exact listed

theorem link_mem_strands {u : V} {link : Link V} (member : u ∈ column) (listed : link ∈ links u) :
    ⟨u, link.v, link.w⟩ ∈ strands links column :=
  List.mem_flatMap.mpr ⟨u, member, List.mem_map.mpr ⟨link, listed, rfl⟩⟩

/-- The crossings next to a column, counted by the pairs of its nodes. -/
theorem pairs_strands (ordered : column.Pairwise fun u v => pos u < pos v) :
    pairs (crossed pos) (strands links column) = pairs (sideCost links pos) column := by
  induction column with
  | nil => rfl
  | cons u column ih =>
      rw [List.pairwise_cons] at ordered
      have own : pairs (crossed pos) ((links u).map fun n => (⟨u, n.v, n.w⟩ : Strand V)) = 0 := by
        rw [pairs_map]
        exact pairs_eq_zero fun one _ two _ => crossed_self u one two
      have rest : between (crossed pos) ((links u).map fun n => (⟨u, n.v, n.w⟩ : Strand V))
          (strands links column) = (column.map (sideCost links pos u)).sum := by
        rw [strands, between_flatMap_right]
        refine congrArg List.sum (List.map_congr_left fun v member => ?_)
        have less := ordered.1 v member
        simp [between, Function.comp_def, crossed_of_lt less, sideCost]
      have whole : strands links (u :: column) =
          ((links u).map fun n => ⟨u, n.v, n.w⟩) ++ strands links column :=
        List.flatMap_cons
      rw [whole, pairs_append, own, rest, ih ordered.2, pairs, Nat.zero_add]

/-! ## Columns that are joined -/

/-- Neighbouring columns: the edges on the right of one are those on the left of the other. -/
def Linked (left right : V → List (Link V)) (column next : List V) : Prop :=
  (strands right column).Perm ((strands left next).map Strand.flip)

/-- All edges join neighbouring columns. -/
structure Layered (left right : V → List (Link V)) (layers : List (List V)) : Prop where
  nodup : layers.flatten.Nodup
  joined : ([] :: (layers ++ [[]])).IsChain (Linked left right)

/-- The crossings of the edges of one node with those of a node below it, on both sides. -/
def nodeCost (left right : V → List (Link V)) (pos : V → Nat) (u v : V) : Nat :=
  sideCost left pos u v + sideCost right pos u v

theorem strands_perm {column other : List V} (perm : column.Perm other) :
    (strands links column).Perm (strands links other) :=
  perm.flatMap_right _

theorem Linked.of_perm {column next other after : List V} (joined : Linked left right column next)
    (first : other.Perm column) (second : after.Perm next) : Linked left right other after :=
  ((strands_perm first).trans joined).trans ((strands_perm second).symm.map Strand.flip)

theorem isChain_of_perm {columns others : List (List V)}
    (joined : columns.IsChain (Linked left right)) (perm : List.Forall₂ List.Perm others columns) :
    others.IsChain (Linked left right) := by
  induction perm with
  | nil => exact .nil
  | @cons one column others columns first rest ih =>
      cases rest with
      | nil => exact .singleton one
      | cons second rest =>
          rw [List.isChain_cons_cons] at joined ⊢
          exact ⟨joined.1.of_perm first second, ih joined.2⟩

/-- The columns may be put into any order each. -/
theorem Layered.of_perm {layers others : List (List V)} (layered : Layered left right layers)
    (perm : List.Forall₂ List.Perm others layers) : Layered left right others where
  nodup := (List.Perm.flatten_congr perm).nodup_iff.mpr layered.nodup
  joined := isChain_of_perm layered.joined <|
    .cons .nil (List.rel_append perm (.cons .nil .nil))

theorem forall₂_replace {before after : List (List V)} {layer other : List V}
    (perm : other.Perm layer) :
    List.Forall₂ List.Perm (before ++ other :: after) (before ++ layer :: after) :=
  List.rel_append (List.forall₂_same.mpr fun layer _ => .refl layer)
    (.cons perm (List.forall₂_same.mpr fun layer _ => .refl layer))

theorem forall₂_trans {layers others cols : List (List V)}
    (first : List.Forall₂ List.Perm layers others) (second : List.Forall₂ List.Perm others cols) :
    List.Forall₂ List.Perm layers cols := by
  induction first generalizing cols with
  | nil => exact second
  | cons here _ ih =>
      cases second with
      | cons next rest => exact .cons (here.trans next) (ih rest)

theorem total_perm {layers others : List (List V)} (perm : List.Forall₂ List.Perm layers others) :
    total right pos layers = total right pos others := by
  induction perm with
  | nil => rfl
  | cons here _ ih =>
      simp only [total, List.map_cons, List.sum_cons] at ih ⊢
      rw [ih, pairs_perm crossed_comm (strands_perm here)]

theorem Linked.mem {column next : List V} (joined : Linked left right column next)
    {strand : Strand V} (member : strand ∈ strands right column) : strand.w ∈ next := by
  obtain ⟨other, listed, rfl⟩ := List.mem_map.mp (joined.mem_iff.mp member)
  exact mem_of_strands listed

theorem Linked.mem_left {column next : List V} (joined : Linked left right column next) {v : V}
    (member : v ∈ next) {link : Link V} (listed : link ∈ left v) : link.v ∈ column := by
  have strand := List.mem_map_of_mem (f := Strand.flip) (link_mem_strands member listed)
  exact mem_of_strands (joined.mem_iff.mpr strand)

theorem exists_next {α : Type} {related : α → α → Prop} {items : List α} {last : α}
    (chain : (items ++ [last]).IsChain related) :
    ∀ item ∈ items, ∃ next ∈ items ++ [last], related item next := by
  induction items with
  | nil => exact fun item member => absurd member List.not_mem_nil
  | cons one items ih =>
      intro item member
      obtain ⟨two, rest, shape⟩ : ∃ two rest, items ++ [last] = two :: rest := by
        cases items <;> simp
      rw [List.cons_append, shape, List.isChain_cons_cons] at chain
      rcases List.mem_cons.mp member with rfl | later
      · exact ⟨two, by simp [shape], chain.1⟩
      · obtain ⟨next, listed, related⟩ := ih (shape ▸ chain.2) item later
        exact ⟨next, List.mem_cons_of_mem _ listed, related⟩

/-- Columns whose nodes keep their positions keep their crossings. -/
theorem total_congr {columns : List (List V)} {last : List V}
    (chain : (columns ++ [last]).IsChain (Linked left right))
    (same : ∀ v ∈ (columns ++ [last]).flatten, now v = pos v) :
    total right now columns = total right pos columns := by
  refine congrArg List.sum (List.map_congr_left fun column member => ?_)
  obtain ⟨next, listed, joined⟩ := exists_next chain column member
  have ends : ∀ strand ∈ strands right column, now strand.v = pos strand.v ∧
      now strand.w = pos strand.w := by
    intro strand inside
    exact ⟨same _ (List.mem_flatten.mpr ⟨column, List.mem_append_left _ member,
      mem_of_strands inside⟩), same _ (List.mem_flatten.mpr ⟨next, listed, joined.mem inside⟩)⟩
  refine pairs_congr fun one first two second => ?_
  rw [crossed, crossed, (ends one first).1, (ends one first).2, (ends two second).1,
    (ends two second).2]

theorem total_append (front back : List (List V)) :
    total right pos (front ++ back) = total right pos front + total right pos back := by
  simp [total]

theorem pairs_joined {before column : List V} (joined : Linked left right before column)
    (ordered : column.Pairwise fun u v => pos u < pos v) :
    pairs (crossed pos) (strands right before) = pairs (sideCost left pos) column := by
  rw [pairs_perm crossed_comm joined, pairs_map, ← pairs_strands ordered]
  exact pairs_congr fun one _ two _ => crossed_flip one two

theorem sideCost_congr {u v : V} (first : ∀ link ∈ links u, now link.v = pos link.v)
    (second : ∀ link ∈ links v, now link.v = pos link.v) :
    sideCost links now u v = sideCost links pos u v := by
  refine between_congr fun one member two listed => ?_
  rw [above, above, first one member, second two listed]

/-- The crossings with those of one column counted by its nodes. -/
theorem total_column {before after pre : List (List V)} {last column : List V}
    (shape : [] :: before = pre ++ [last]) (joined : Linked left right last column)
    (ordered : column.Pairwise fun u v => pos u < pos v) :
    total right pos (before ++ column :: after) =
      total right pos pre + pairs (nodeCost left right pos) column + total right pos after := by
  have whole : total right pos (before ++ column :: after) =
      total right pos (pre ++ [last]) + total right pos (column :: after) := by
    rw [total_append, ← shape]
    simp [total, strands, pairs]
  have nodes : pairs (nodeCost left right pos) column =
      pairs (crossed pos) (strands right last) + pairs (crossed pos) (strands right column) := by
    rw [pairs_joined joined ordered, pairs_strands ordered]
    exact pairs_add _ _
  rw [whole, total_append, nodes]
  simp only [total, List.map_cons, List.map_nil, List.sum_cons, List.sum_nil]
  omega

/-- A column between the one before it, which the first has none of its own, and the next. -/
theorem Layered.around {before after : List (List V)}
    (layered : Layered left right (before ++ column :: after)) :
    ∃ pre last next, [] :: before = pre ++ [last] ∧ next ∈ after ++ [[]] ∧
      Linked left right last column ∧ Linked left right column next ∧
        (pre ++ [last]).IsChain (Linked left right) ∧
          (after ++ [[]]).IsChain (Linked left right) := by
  obtain ⟨pre, last, shape⟩ : ∃ pre last, [] :: before = pre ++ [last] :=
    ⟨_, _, (List.dropLast_append_getLast (List.cons_ne_nil _ _)).symm⟩
  have chain := layered.joined
  have split : [] :: (before ++ column :: after ++ [[]]) =
      pre ++ last :: column :: (after ++ [[]]) := by
    rw [List.append_assoc, ← List.cons_append, shape]
    simp
  rw [split] at chain
  obtain ⟨chainBefore, chainLast⟩ := List.isChain_split.mp chain
  obtain ⟨joined, chainColumn⟩ := List.isChain_cons_cons.mp chainLast
  obtain ⟨next, rest, afterShape⟩ : ∃ next rest, after ++ [[]] = next :: rest := by
    cases after <;> simp
  have joinedNext : Linked left right column next := by
    rw [afterShape] at chainColumn
    exact (List.isChain_cons_cons.mp chainColumn).1
  exact ⟨pre, last, next, shape, afterShape ▸ List.mem_cons_self, joined, joinedNext, chainBefore,
    chainColumn.tail⟩

/-- What nodes of a column cost depends on the columns next to it alone. -/
theorem Linked.nodeCost_congr {last column next : List V} (joined : Linked left right last column)
    (joinedNext : Linked left right column next) (lastSame : ∀ v ∈ last, now v = pos v)
    (nextSame : ∀ v ∈ next, now v = pos v) {u v : V} (first : u ∈ column) (second : v ∈ column) :
    nodeCost left right now u v = nodeCost left right pos u v := by
  have onLeft : ∀ u ∈ column, ∀ link ∈ left u, now link.v = pos link.v :=
    fun u member link listed => lastSame _ (joined.mem_left member listed)
  have onRight : ∀ u ∈ column, ∀ link ∈ right u, now link.v = pos link.v :=
    fun u member link listed => nextSame _ (joinedNext.mem (link_mem_strands member listed))
  rw [nodeCost, nodeCost, sideCost_congr (onLeft u first) (onLeft v second),
    sideCost_congr (onRight u first) (onRight v second)]

/-- Where two neighbouring segments of a column change places, the crossings change by what the one
costs above the other. -/
theorem total_exchange {before after : List (List V)} {front one two back : List V}
    (layered : Layered left right (before ++ (front ++ one ++ two ++ back) :: after))
    (ordered : (front ++ one ++ two ++ back).Pairwise fun u v => pos u < pos v)
    (turned : (front ++ two ++ one ++ back).Pairwise fun u v => now u < now v)
    (same : ∀ v ∉ front ++ one ++ two ++ back, now v = pos v) :
    total right now (before ++ (front ++ two ++ one ++ back) :: after) +
        between (nodeCost left right pos) one two =
      total right pos (before ++ (front ++ one ++ two ++ back) :: after) +
        between (nodeCost left right pos) two one := by
  set column := front ++ one ++ two ++ back with column_eq
  set swapped := front ++ two ++ one ++ back with swapped_eq
  have perm : swapped.Perm column := by
    rw [swapped_eq, column_eq]
    simp only [List.append_assoc]
    exact (List.perm_append_comm_assoc two one back).append_left front
  obtain ⟨pre, last, next, shape, listed, joined, joinedNext, chainBefore, chainAfter⟩ :=
    layered.around
  -- the other columns keep their positions
  have nodup := layered.nodup
  rw [List.flatten_append, List.flatten_cons] at nodup
  obtain ⟨-, nodupRest, apartBefore⟩ := List.nodup_append.mp nodup
  obtain ⟨-, -, apartAfter⟩ := List.nodup_append.mp nodupRest
  have beforeSame : ∀ v ∈ (pre ++ [last]).flatten, now v = pos v := by
    rw [← shape, List.flatten_cons, List.nil_append]
    exact fun v member => same v fun inside =>
      apartBefore v member v (List.mem_append_left _ inside) rfl
  have afterSame : ∀ v ∈ (after ++ [[]]).flatten, now v = pos v := by
    rw [List.flatten_append, List.flatten_singleton, List.append_nil]
    exact fun v member => same v fun inside => apartAfter v inside v member rfl
  have lastSame : ∀ v ∈ last, now v = pos v :=
    fun v member => beforeSame v (List.mem_flatten.mpr ⟨last, by simp, member⟩)
  have nextSame : ∀ v ∈ next, now v = pos v :=
    fun v member => afterSame v (List.mem_flatten.mpr ⟨next, listed, member⟩)
  have moved : pairs (nodeCost left right now) swapped = pairs (nodeCost left right pos) swapped :=
    pairs_congr fun u first v second =>
      joined.nodeCost_congr joinedNext lastSame nextSame (perm.subset first) (perm.subset second)
  have earlier := @total_column _ left right pos before after pre last column shape joined ordered
  have later := @total_column _ left right now before after pre last swapped shape
    (joined.of_perm (List.Perm.refl last) perm) turned
  have exchange := @pairs_exchange _ (nodeCost left right pos) front one two back
  rw [← column_eq, ← swapped_eq] at exchange
  rw [earlier, later, moved, total_congr chainBefore beforeSame, total_congr chainAfter afterSame]
  omega

end Crossings
end Fghj
