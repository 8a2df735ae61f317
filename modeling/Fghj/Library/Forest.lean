import Fghj.Library.Loop
import Mathlib.Data.List.Nodup
import Mathlib.Data.List.Perm.Subperm

/-!
# Walking a forest by a growing list

A list starts with a root and is read from the front; each entry read puts its children at the end.
In a finite forest the walk ends, and its list is the root with everything below it.
-/

namespace Fghj
namespace Forest

variable {α : Type} (children : α → List α)

/-- One entry of the list is read, or the walk is over. -/
def walkPass (walk : List α × Nat) : Pass (List α × Nat) (List α) :=
  match walk.1[walk.2]? with
  | some vertex => .again (walk.1 ++ children vertex, walk.2 + 1)
  | none => .done walk.1

/-- The list the walk from `root` ends with, if the fuel lasts. -/
def walk (fuel : Nat) (root : α) : Option (List α) := Pass.loop (walkPass children) fuel ([root], 0)

/-- Children are finitely many, have one parent and rank above it. -/
structure IsForest (bound : List α) (rank : α → Nat) : Prop where
  known : ∀ vertex, children vertex ⊆ bound
  nodup : ∀ vertex, (children vertex).Nodup
  single : ∀ child parent other, child ∈ children parent → child ∈ children other → parent = other
  rises : ∀ vertex, ∀ child ∈ children vertex, rank vertex < rank child

variable {children}

namespace IsForest

variable {bound : List α} {rank : α → Nat}

/-- Nothing lies below itself. -/
theorem acyclic (forest : IsForest children bound rank) (vertex : α) :
    ¬Relation.TransGen (fun parent child => child ∈ children parent) vertex vertex := by
  have climbs : ∀ other, Relation.TransGen (fun parent child => child ∈ children parent) vertex
      other → rank vertex < rank other := by
    intro other below
    induction below with
    | single step => exact forest.rises _ _ step
    | tail _ step ih => exact ih.trans (forest.rises _ _ step)
  exact fun below => absurd (climbs vertex below) (Nat.lt_irrefl _)

end IsForest

/-- The list is the root and the children of the entries read so far. -/
structure Walked (children : α → List α) (root : α) (walk : List α × Nat) : Prop where
  list : walk.1 = root :: (walk.1.take walk.2).flatMap children
  read : walk.2 ≤ walk.1.length

namespace Walked

variable {root : α} {walk : List α × Nat}

theorem init (root : α) : Walked children root ([root], 0) := ⟨by simp, by simp⟩

/-- Reading one more entry keeps the list what it is. -/
theorem again {next : List α × Nat} (walked : Walked children root walk)
    (goesOn : walkPass children walk = .again next) : Walked children root next := by
  unfold walkPass at goesOn
  split at goesOn
  · rename_i vertex entry
    obtain rfl := Pass.again.inj goesOn
    obtain ⟨inside, rfl⟩ := List.getElem?_eq_some_iff.mp entry
    refine ⟨?_, by simpa using by omega⟩
    have front : (walk.1 ++ children walk.1[walk.2]).take (walk.2 + 1) =
        walk.1.take walk.2 ++ [walk.1[walk.2]] := by
      rw [List.take_append_of_le_length inside, List.take_succ_eq_append_getElem inside]
    rw [front, List.flatMap_append, List.flatMap_singleton, ← List.cons_append, ← walked.list]
  · cases goesOn

/-- When the walk is over, its list is closed under children. -/
theorem done {list : List α} (walked : Walked children root walk)
    (ends : walkPass children walk = .done list) : list = root :: list.flatMap children := by
  unfold walkPass at ends
  split at ends
  · cases ends
  · rename_i ended
    obtain rfl := Pass.done.inj ends
    have all := List.getElem?_eq_none_iff.mp ended
    have list := walked.list
    rwa [List.take_of_length_le all] at list

end Walked

/-- No entry of the list is there twice, and none ranks below the root. -/
structure Simple (root : α) (rank : α → Nat) (list : List α) : Prop where
  nodup : list.Nodup
  above : ∀ vertex ∈ list, rank root ≤ rank vertex

namespace Simple

variable {bound : List α} {rank : α → Nat} {root : α} {list : List α}

/-- The root with the children of part of a simple list is a simple list. -/
theorem unfold (forest : IsForest children bound rank) (simple : Simple root rank list) :
    Simple root rank (root :: list.flatMap children) := by
  have higher : ∀ child ∈ list.flatMap children, rank root < rank child := by
    intro child listed
    obtain ⟨parent, member, below⟩ := List.mem_flatMap.mp listed
    exact (simple.above parent member).trans_lt (forest.rises parent child below)
  refine ⟨List.nodup_cons.mpr ⟨fun listed => ?_, List.nodup_flatMap.mpr ⟨?_, ?_⟩⟩, ?_⟩
  · exact absurd (higher root listed) (Nat.lt_irrefl _)
  · exact fun vertex _ => forest.nodup vertex
  · refine simple.nodup.imp fun {vertex other} different => ?_
    exact fun child here there => different (forest.single child vertex other here there)
  · intro vertex member
    rcases List.mem_cons.mp member with rfl | listed
    · exact Nat.le_refl _
    · exact (higher vertex listed).le

theorem sublist (simple : Simple root rank list) {part : List α} (inside : part.Sublist list) :
    Simple root rank part :=
  ⟨inside.nodup simple.nodup, fun vertex member => simple.above vertex (inside.subset member)⟩

end Simple

namespace IsForest

variable {bound : List α} {rank : α → Nat} {root : α}

/-- A simple list of the root and children is no longer than the vertices there are. -/
theorem length_le (forest : IsForest children bound rank) {walk : List α × Nat}
    (walked : Walked children root walk) (simple : Simple root rank walk.1) :
    walk.1.length ≤ bound.length + 1 := by
  have inside : walk.1 ⊆ root :: bound := by
    rw [walked.list]
    refine List.cons_subset_cons _ fun child listed => ?_
    obtain ⟨parent, -, below⟩ := List.mem_flatMap.mp listed
    exact forest.known parent below
  simpa using (List.subperm_of_subset simple.nodup inside).length_le

theorem simple_again (forest : IsForest children bound rank) {walk next : List α × Nat}
    (walked : Walked children root walk) (simple : Simple root rank walk.1)
    (goesOn : walkPass children walk = .again next) : Simple root rank next.1 := by
  rw [(walked.again goesOn).list]
  refine (simple.sublist ?_).unfold forest
  unfold walkPass at goesOn
  split at goesOn
  · rename_i vertex entry
    obtain rfl := Pass.again.inj goesOn
    obtain ⟨inside, -⟩ := List.getElem?_eq_some_iff.mp entry
    rw [List.take_append_of_le_length inside]
    exact List.take_sublist _ _
  · cases goesOn

/-- With a pass for every vertex and one more for each end, the walk comes to its end. -/
theorem walk_ends (forest : IsForest children bound rank) {fuel : Nat}
    (enough : bound.length + 2 ≤ fuel) (root : α) : ∃ list, walk children fuel root = some list ∧
      list = root :: list.flatMap children := by
  have ends : ∀ (fuel : Nat) (state : List α × Nat), Walked children root state →
      Simple root rank state.1 → bound.length + 2 ≤ fuel + state.2 →
      ∃ list, Pass.loop (walkPass children) fuel state = some list ∧
        list = root :: list.flatMap children := by
    intro fuel
    induction fuel with
    | zero =>
        intro state walked simple enough
        have := forest.length_le walked simple
        have := walked.read
        omega
    | succ fuel ih =>
        intro state walked simple enough
        cases result : walkPass children state with
        | done list => exact ⟨list, Pass.loop_done result fuel, walked.done result⟩
        | again next =>
            have further : next.2 = state.2 + 1 := by
              unfold walkPass at result
              split at result
              · obtain rfl := Pass.again.inj result
                rfl
              · cases result
            rw [Pass.loop_again result]
            exact ih next (walked.again result) (forest.simple_again walked simple result)
              (by omega)
  exact ends fuel _ (.init root) ⟨List.nodup_singleton root, by simp⟩ (by simpa using enough)

end IsForest
end Forest
end Fghj
