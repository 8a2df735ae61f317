import Mathlib.Data.List.Basic
import Mathlib.Logic.Function.Basic

/-!
# Relayed versions

A source changes its items, each change making the next version of one, and sends lines that carry
the version an item has when the line is written. A follower takes the lines in order and may skip
some. What it has seen of an item never gets older, and is the newest once every item that was
changed has been sent since and no line is under way.
-/

namespace Fghj
namespace Relay

variable {ι : Type}

/-- The lines under way carry versions in the order in which they came to be, none older than what
the follower has seen. -/
structure InOrder (current seen : ι → Nat) (lines : List (ι × Nat)) : Prop where
  sorted : lines.Pairwise fun first later => first.1 = later.1 → first.2 ≤ later.2
  recent : ∀ line ∈ lines, seen line.1 ≤ line.2 ∧ line.2 ≤ current line.1
  behind : ∀ item, seen item ≤ current item

/-- The newest version of an item is announced, under way or seen. -/
def Covered (announced : ι → Prop) (current seen : ι → Nat) (lines : List (ι × Nat)) (item : ι) :
    Prop :=
  announced item ∨ (item, current item) ∈ lines ∨ seen item = current item

variable {current next seen : ι → Nat} {lines : List (ι × Nat)} {line : ι × Nat} {item : ι}
  {announced still : ι → Prop}

/-- Items change. -/
theorem InOrder.grow (inOrder : InOrder current seen lines)
    (grows : ∀ item, current item ≤ next item) : InOrder next seen lines where
  sorted := inOrder.sorted
  recent line under :=
    ⟨(inOrder.recent line under).1, Nat.le_trans (inOrder.recent line under).2 (grows line.1)⟩
  behind item := Nat.le_trans (inOrder.behind item) (grows item)

theorem InOrder.send (inOrder : InOrder current seen lines) (item : ι) :
    InOrder current seen (lines ++ [(item, current item)]) where
  sorted := by
    apply List.pairwise_append.mpr
    refine ⟨inOrder.sorted, List.pairwise_singleton .., fun first under last new => ?_⟩
    obtain rfl := List.mem_singleton.mp new
    rintro rfl
    exact (inOrder.recent first under).2
  recent line under := by
    rcases List.mem_append.mp under with old | new
    · exact inOrder.recent line old
    · obtain rfl := List.mem_singleton.mp new
      exact ⟨inOrder.behind item, Nat.le_refl _⟩
  behind := inOrder.behind

theorem InOrder.skip (inOrder : InOrder current seen (line :: lines)) :
    InOrder current seen lines where
  sorted := (List.pairwise_cons.mp inOrder.sorted).2
  recent other under := inOrder.recent other (List.mem_cons_of_mem _ under)
  behind := inOrder.behind

theorem InOrder.take [DecidableEq ι] (inOrder : InOrder current seen (line :: lines)) :
    InOrder current (Function.update seen line.1 line.2) lines where
  sorted := (List.pairwise_cons.mp inOrder.sorted).2
  recent other under := by
    have later := inOrder.recent other (List.mem_cons_of_mem _ under)
    refine ⟨?_, later.2⟩
    rw [Function.update_apply]
    split
    · rename_i same
      exact (List.pairwise_cons.mp inOrder.sorted).1 other under same.symm
    · exact later.1
  behind item := by
    rw [Function.update_apply]
    split
    · rename_i same
      exact same ▸ (inOrder.recent line List.mem_cons_self).2
    · exact inOrder.behind item

/-- What was seen of an item is never replaced by something older. -/
theorem InOrder.le_take [DecidableEq ι] (inOrder : InOrder current seen (line :: lines))
    (item : ι) : seen item ≤ Function.update seen line.1 line.2 item := by
  rw [Function.update_apply]
  split
  · rename_i same
    exact same ▸ (inOrder.recent line List.mem_cons_self).1
  · exact Nat.le_refl _

/-- Items that do not change stay covered by what announces them. -/
theorem Covered.mono (covered : Covered announced current seen lines item)
    (same : next item = current item) (announces : announced item → still item) :
    Covered still next seen lines item := by
  rw [Covered, same]
  exact covered.imp_left announces

/-- A line announces its item and stands for the others. -/
theorem Covered.send (covered : Covered announced current seen lines item) (sent : ι)
    (announces : announced item → still item ∨ item = sent) :
    Covered still current seen (lines ++ [(sent, current sent)]) item := by
  rcases covered with announced | under | taken
  · rcases announces announced with remains | rfl
    · exact .inl remains
    · exact .inr (.inl (List.mem_append_right _ (List.mem_singleton_self _)))
  · exact .inr (.inl (List.mem_append_left _ under))
  · exact .inr (.inr taken)

/-- A line that is taken covers its item. -/
theorem Covered.take [DecidableEq ι] (inOrder : InOrder current seen (line :: lines))
    (covered : Covered announced current seen (line :: lines) item) :
    Covered announced current (Function.update seen line.1 line.2) lines item := by
  rcases covered with announced | under | taken
  · exact .inl announced
  · rcases List.mem_cons.mp under with rfl | later
    · exact .inr (.inr (Function.update_self ..))
    · exact .inr (.inl later)
  · by_cases same : item = line.1
    · subst same
      have bounds := inOrder.recent line List.mem_cons_self
      refine .inr (.inr ?_)
      rw [Function.update_self]
      exact Nat.le_antisymm bounds.2 (taken ▸ bounds.1)
    · exact .inr (.inr ((Function.update_of_ne same ..).trans taken))

/-- A line of another item is skipped. -/
theorem Covered.skip (covered : Covered announced current seen (line :: lines) item)
    (different : line.1 ≠ item) : Covered announced current seen lines item := by
  rcases covered with announced | under | taken
  · exact .inl announced
  · rcases List.mem_cons.mp under with rfl | later
    · exact absurd rfl different
    · exact .inr (.inl later)
  · exact .inr (.inr taken)

theorem Covered.newest (covered : Covered announced current seen [] item)
    (quiet : ¬announced item) : seen item = current item :=
  (covered.resolve_left quiet).resolve_left List.not_mem_nil

end Relay
end Fghj
