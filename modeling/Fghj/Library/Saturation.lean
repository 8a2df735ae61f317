import Fghj.Library.Digraph

/-!
# Adding what a set lacks

A loop that asks what a set lacks, adds that and whatever comes with it, and stops when nothing is
lacking. It ends because everything it can lack is one of finitely many things.
-/

namespace Fghj
namespace Saturation

variable {α : Type} (lacks : List α → List α) (add : List α → List α → List α)

def saturate : Nat → List α → List α
  | 0, set => set
  | fuel + 1, set =>
      match lacks set with
      | [] => set
      | first :: rest => saturate fuel (add set (first :: rest))

/-- The loop with its fuel in sight: nothing when the fuel runs out while something is lacking. -/
def saturateWithin : Nat → List α → Option (List α)
  | 0, set => if (lacks set).isEmpty then some set else none
  | fuel + 1, set =>
      match lacks set with
      | [] => some set
      | first :: rest => saturateWithin fuel (add set (first :: rest))

variable {set : List α}

/-- What holds of a set and is kept when something lacking is added holds in the end. -/
theorem saturate_invariant (invariant : List α → Prop)
    (kept : ∀ set, invariant set → lacks set ≠ [] → invariant (add set (lacks set))) (fuel : Nat)
    (initial : invariant set) : invariant (saturate lacks add fuel set) := by
  induction fuel generalizing set with
  | zero => exact initial
  | succ fuel ih =>
      rw [saturate]
      cases found : lacks set with
      | nil => exact initial
      | cons first rest =>
          apply ih
          rw [← found]
          exact kept set initial (by rw [found]; exact List.cons_ne_nil _ _)

section Enough

variable [DecidableEq α] {lacks add} {bound : List α}
  (lacked : ∀ set, ∀ value ∈ lacks set, value ∈ bound ∧ value ∉ set)
  (grows : ∀ set, set ⊆ add set (lacks set) ∧ lacks set ⊆ add set (lacks set))

include lacked grows

/-- Each round finds one of the bounded things that was missing. -/
theorem length_missing_add {first : α} {rest : List α} (found : lacks set = first :: rest) :
    (Digraph.missing bound (add set (first :: rest))).length <
      (Digraph.missing bound set).length := by
  obtain ⟨known, absent⟩ := lacked set first (found ▸ List.mem_cons_self)
  have fewer := Digraph.length_missing_lt known absent
  have grown : first :: set ⊆ add set (first :: rest) := by
    obtain ⟨kept, added⟩ := grows set
    rw [found] at kept added
    exact List.cons_subset.mpr ⟨added List.mem_cons_self, kept⟩
  have later := Digraph.length_missing_anti bound grown
  omega

theorem lacks_saturate {fuel : Nat} (enough : (Digraph.missing bound set).length ≤ fuel) :
    lacks (saturate lacks add fuel set) = [] := by
  induction fuel generalizing set with
  | zero =>
      rw [saturate, List.eq_nil_iff_forall_not_mem]
      intro value member
      obtain ⟨known, absent⟩ := lacked set value member
      have missing : value ∈ Digraph.missing bound set := by simp [Digraph.missing, known, absent]
      have positive := List.length_pos_of_mem missing
      omega
  | succ fuel ih =>
      rw [saturate]
      cases found : lacks set with
      | nil => exact found
      | cons first rest =>
          apply ih
          have fewer := length_missing_add lacked grows found
          omega

/-- With enough fuel the loop comes to its end. -/
theorem saturateWithin_eq_some {fuel : Nat} (enough : (Digraph.missing bound set).length ≤ fuel) :
    saturateWithin lacks add fuel set = some (saturate lacks add fuel set) := by
  induction fuel generalizing set with
  | zero =>
      have ends := lacks_saturate lacked grows enough
      rw [saturate] at ends ⊢
      simp [saturateWithin, ends]
  | succ fuel ih =>
      rw [saturateWithin, saturate]
      cases found : lacks set with
      | nil => rfl
      | cons first rest =>
          apply ih
          have fewer := length_missing_add lacked grows found
          omega

end Enough

end Saturation
end Fghj
