import Mathlib.Algebra.Order.BigOperators.Group.List
import Mathlib.Algebra.Order.Ring.Nat

/-!
# Numbered slots

A list whose entries are known by their numbers: one of them is replaced, the others stay. What the
entries weigh together changes by what the replaced one does.
-/

namespace Fghj
namespace Slots

variable {α : Type} {entries : List α}

/-- What is in a slot after one slot was filled anew. -/
theorem getElem?_set_cases {number other : Nat} {next entry : α}
    (found : (entries.set number next)[other]? = some entry) :
    number = other ∧ entry = next ∨ number ≠ other ∧ entries[other]? = some entry := by
  rw [List.getElem?_set] at found
  split at found
  · rename_i same
    split at found
    · cases found
      exact .inl ⟨same, rfl⟩
    · cases found
  · rename_i different
    exact .inr ⟨different, found⟩

/-- What is in a slot after one more was put at the end. -/
theorem getElem?_concat_cases {other : Nat} {next entry : α}
    (found : (entries ++ [next])[other]? = some entry) :
    entries[other]? = some entry ∨ other = entries.length ∧ entry = next := by
  rw [List.getElem?_append] at found
  split at found
  · exact .inl found
  · obtain ⟨inside, rfl⟩ := List.getElem?_eq_some_iff.mp found
    simp only [List.length_singleton] at inside
    exact .inr ⟨by omega, by simp⟩

variable {number : Nat}

theorem getElem?_append_of {entry : α} (found : entries[number]? = some entry) (more : List α) :
    (entries ++ more)[number]? = some entry :=
  (List.getElem?_append_left (List.getElem?_eq_some_iff.mp found).1).trans found

theorem getElem?_set_self {entry : α} (found : entries[number]? = some entry) (next : α) :
    (entries.set number next)[number]? = some next :=
  List.getElem?_set_self (List.getElem?_eq_some_iff.mp found).1

/-- An entry that differs from the one that is replaced stays where it is. -/
theorem getElem?_set_of_ne {number other : Nat} {entry old : α}
    (found : entries[number]? = some old) (before : entries[other]? = some entry)
    (different : entry ≠ old) (next : α) : (entries.set number next)[other]? = some entry := by
  refine (List.getElem?_set_ne ?_).trans before
  rintro rfl
  exact different (Option.some.inj (before.symm.trans found))

/-- What is in some slot stays in one when a slot with something else is filled anew. -/
theorem mem_set_of_ne {entry other : α} (found : entries[number]? = some entry)
    (member : other ∈ entries) (different : other ≠ entry) (next : α) :
    other ∈ entries.set number next := by
  obtain ⟨place, here⟩ := List.mem_iff_getElem?.mp member
  by_cases same : number = place
  · subst same
    exact absurd (Option.some.inj (here.symm.trans found)) different
  · exact List.mem_of_getElem? ((List.getElem?_set_ne same).trans here)

/-- The weight of all slots changes with the slot that is filled anew. -/
theorem sum_map_set {entry : α} (found : entries[number]? = some entry) (weight : α → Nat)
    (next : α) :
    ((entries.set number next).map weight).sum + weight entry =
      (entries.map weight).sum + weight next := by
  induction entries generalizing number with
  | nil => cases found
  | cons first entries ih =>
      cases number with
      | zero =>
          cases found
          simp only [List.set_cons_zero, List.map_cons, List.sum_cons]
          omega
      | succ number =>
          have rest := ih found
          simp only [List.set_cons_succ, List.map_cons, List.sum_cons]
          omega

theorem weight_le_sum {entry : α} (found : entries[number]? = some entry) (weight : α → Nat) :
    weight entry ≤ (entries.map weight).sum :=
  List.single_le_sum (fun _ _ => Nat.zero_le _) _
    (List.mem_map_of_mem (List.mem_of_getElem? found))

/-- What each slot weighs at most as much as, all slots do together. -/
theorem sum_le_sum {β : Type} {others : List β} {weight : α → Nat} {other_weight : β → Nat}
    (length : others.length = entries.length)
    (lighter : ∀ (number : Nat) (entry : α) (other : β), entries[number]? = some entry →
      others[number]? = some other → other_weight other ≤ weight entry) :
    (others.map other_weight).sum ≤ (entries.map weight).sum := by
  induction entries generalizing others with
  | nil =>
      rw [List.eq_nil_of_length_eq_zero length]
      exact Nat.le_refl _
  | cons first entries ih =>
      cases others with
      | nil => cases length
      | cons other others =>
          have head := lighter 0 first other rfl rfl
          have rest := ih (Nat.succ.inj length) fun number entry other found held =>
            lighter (number + 1) entry other found held
          simp only [List.map_cons, List.sum_cons]
          omega

end Slots
end Fghj
