import Mathlib.Data.List.Induction
import Mathlib.Logic.Function.Iterate
import Mathlib.Logic.Relation
import Mathlib.Tactic.Common

/-!
# Union-find

A forest of parents, in which a root is its own parent. Finding the root of an element makes it the
parent of everything passed on the way; uniting two elements puts one root below the other. Two
elements have one root exactly when the unions made so far connect them.
-/

namespace Fghj
namespace UnionFind

variable {α : Type}

/-- That many steps up, or fewer, lead to the root. -/
structure Leads (parent : α → α) (steps : Nat) (x root : α) : Prop where
  arrives : parent^[steps] x = root
  stays : parent root = root

variable {parent : α → α} {steps fuel : Nat} {x y root : α}

/-- Every element is at most so many steps below its root. -/
def Represents (parent : α → α) (steps : Nat) (root : α → α) : Prop :=
  ∀ x, Leads parent steps x (root x)

theorem Leads.refl (stays : parent x = x) (steps : Nat) : Leads parent steps x x :=
  ⟨Function.iterate_fixed stays steps, stays⟩

theorem Leads.more (leads : Leads parent steps x root) {later : Nat} (more : steps ≤ later) :
    Leads parent later x root := by
  obtain ⟨extra, rfl⟩ := Nat.exists_eq_add_of_le' more
  refine ⟨?_, leads.stays⟩
  rw [Function.iterate_add_apply, leads.arrives]
  exact Function.iterate_fixed leads.stays extra

theorem Leads.cons (leads : Leads parent steps (parent x) root) : Leads parent (steps + 1) x root :=
  ⟨leads.arrives, leads.stays⟩

theorem Leads.tail (leads : Leads parent (steps + 1) x root) : Leads parent steps (parent x) root :=
  ⟨leads.arrives, leads.stays⟩

/-- An element has one root, however many steps away. -/
theorem Leads.unique {others : Nat} {other : α} (leads : Leads parent steps x root)
    (also : Leads parent others x other) : root = other := by
  rw [← (leads.more (Nat.le_max_left steps others)).arrives,
    (also.more (Nat.le_max_right steps others)).arrives]

variable [DecidableEq α]

/-- The root of an element, and the parents with the way to it compressed. -/
def find : Nat → (α → α) → α → α × (α → α)
  | 0, parent, x => (x, parent)
  | fuel + 1, parent, x =>
      if parent x = x then (x, parent)
      else
        let found := find fuel parent (parent x)
        (found.1, Function.update found.2 x found.1)

/-- The root of the first element gets that of the second as its parent. -/
def unite (fuel : Nat) (parent : α → α) (pair : α × α) : α → α :=
  let first := find fuel parent pair.1
  let second := find fuel first.2 pair.2
  Function.update second.2 first.1 second.1

/-- Giving an element its root as a parent lengthens no way up. -/
theorem Leads.compress (here : Leads parent steps x root) {others : Nat} {other : α}
    (there : Leads parent others y other) :
    Leads (Function.update parent x root) others y other := by
  have rootStays : Function.update parent x root root = root := by
    by_cases same : root = x
    · rw [same, Function.update_self]
    · rw [Function.update_of_ne same, here.stays]
  induction others generalizing y with
  | zero =>
      obtain rfl : y = other := there.arrives
      refine .refl ?_ 0
      by_cases same : y = x
      · subst same
        rw [Function.update_self]
        exact here.unique there
      · rw [Function.update_of_ne same, there.stays]
  | succ others ih =>
      by_cases same : y = x
      · subst same
        obtain rfl := here.unique there
        apply Leads.cons
        rw [Function.update_self]
        exact .refl rootStays others
      · apply Leads.cons
        rw [Function.update_of_ne same]
        exact ih there.tail

/-- Finding returns the root and lengthens no way up. -/
theorem find_spec (leads : Leads parent steps x root) (enough : steps ≤ fuel) :
    (find fuel parent x).1 = root ∧ ∀ others y other, Leads parent others y other →
      Leads (find fuel parent x).2 others y other := by
  induction fuel generalizing steps x with
  | zero =>
      obtain rfl := Nat.le_zero.mp enough
      exact ⟨leads.arrives, fun _ _ _ there => there⟩
  | succ fuel ih =>
      rw [find]
      split
      · rename_i own
        exact ⟨(Leads.refl own steps).unique leads, fun _ _ _ there => there⟩
      · rename_i climbs
        cases steps with
        | zero =>
            obtain rfl : x = root := leads.arrives
            exact absurd leads.stays climbs
        | succ steps =>
            obtain ⟨found, kept⟩ := ih leads.tail (Nat.le_of_succ_le_succ enough)
            refine ⟨found, fun others y other there => ?_⟩
            simp only [found]
            exact (kept _ _ _ leads).compress (kept _ _ _ there)

omit [DecidableEq α] in
theorem represents_self : Represents (id : α → α) 0 id := fun _ => ⟨rfl, rfl⟩

/-- Finding changes no root. -/
theorem Represents.find {roots : α → α} (represents : Represents parent steps roots)
    (enough : steps ≤ fuel) (x : α) : (find fuel parent x).1 = roots x ∧
      Represents (UnionFind.find fuel parent x).2 steps roots := by
  obtain ⟨found, kept⟩ := find_spec (represents x) enough
  exact ⟨found, fun y => kept _ _ _ (represents y)⟩

/-- The roots once two elements are united. -/
def united (roots : α → α) (pair : α × α) (x : α) : α :=
  if roots x = roots pair.1 then roots pair.2 else roots x

/-- Uniting makes the way up one step longer. -/
theorem Represents.unite {roots : α → α} (represents : Represents parent steps roots)
    (enough : steps ≤ fuel) (pair : α × α) :
    Represents (unite fuel parent pair) (steps + 1) (united roots pair) := by
  obtain ⟨first, kept⟩ := represents.find enough pair.1
  obtain ⟨second, left⟩ := kept.find enough pair.2
  rw [UnionFind.unite, first, second]
  set climbed := (UnionFind.find fuel (UnionFind.find fuel parent pair.1).2 pair.2).2
  have ownRoot (x : α) : climbed (roots x) = roots x := (left x).stays
  -- below the first root everything goes one step further, elsewhere nothing changes
  have lifted (n : Nat) : ∀ x, Leads climbed n x (roots x) →
      Leads (Function.update climbed (roots pair.1) (roots pair.2)) (n + 1) x
        (united roots pair x) := by
    have last : Function.update climbed (roots pair.1) (roots pair.2) (roots pair.2) =
        roots pair.2 := by
      by_cases same : roots pair.2 = roots pair.1
      · rw [same, Function.update_self]
      · rw [Function.update_of_ne same, ownRoot]
    induction n with
    | zero =>
        intro x leads
        have here : x = roots x := leads.arrives
        rw [united]
        split
        · rename_i among
          apply Leads.cons
          rw [here, among, Function.update_self]
          exact .refl last 0
        · rename_i apart
          have stays : Function.update climbed (roots pair.1) (roots pair.2) x = x := by
            rw [Function.update_of_ne (here ▸ apart)]
            have stays := ownRoot x
            rwa [← here] at stays
          rw [← here]
          exact .refl stays 1
    | succ n ih =>
        intro x leads
        by_cases same : x = roots pair.1
        · have root : roots x = x := by
            rw [same]
            exact (left (roots pair.1)).unique (.refl (ownRoot pair.1) 0)
          rw [united, if_pos (by rw [root, same])]
          apply Leads.cons
          rw [same, Function.update_self]
          exact .refl last _
        · apply Leads.cons
          rw [Function.update_of_ne same]
          have up : roots (climbed x) = roots x :=
            ((left (climbed x)).more (Nat.le_max_left steps n)).unique
              (leads.tail.more (Nat.le_max_right steps n))
          have there := ih (climbed x) (by rw [up]; exact leads.tail)
          rw [united, up] at there
          rwa [united]
  exact fun x => lifted steps x (left x)

/-! ## Unions -/

/-- What the pairs connect, in either direction. -/
abbrev Connected (pairs : List (α × α)) : α → α → Prop :=
  Relation.EqvGen fun one other => (one, other) ∈ pairs

/-- Two elements have one root exactly when the pairs connect them. -/
def Separates (roots : α → α) (pairs : List (α × α)) : Prop :=
  ∀ x y, roots x = roots y ↔ Connected pairs x y

omit [DecidableEq α] in
theorem separates_nil : Separates (id : α → α) [] := by
  intro x y
  constructor
  · rintro rfl
    exact .refl x
  · intro connected
    induction connected with
    | rel _ _ listed => cases listed
    | refl _ => rfl
    | symm _ _ _ ih => exact ih.symm
    | trans _ _ _ _ _ left right => exact left.trans right

omit [DecidableEq α] in
theorem Connected.mono {pairs more : List (α × α)} (within : pairs ⊆ more)
    (connected : Connected pairs x y) : Connected more x y :=
  Relation.EqvGen.mono (r := fun one other => (one, other) ∈ pairs)
    (fun _ _ listed => within listed)
    x y connected

/-- Uniting a pair connects what is connected to either of its elements. -/
theorem Separates.united {roots : α → α} {pairs : List (α × α)} (separates : Separates roots pairs)
    (pair : α × α) : Separates (united roots pair) (pairs ++ [pair]) := by
  have older {x y : α} (same : roots x = roots y) : Connected (pairs ++ [pair]) x y :=
    ((separates x y).mp same).mono (List.subset_append_left _ _)
  have joined : Connected (pairs ++ [pair]) pair.1 pair.2 :=
    .rel _ _ (List.mem_append_right _ List.mem_cons_self)
  intro x y
  constructor
  · intro same
    simp only [UnionFind.united] at same
    split at same <;> split at same
    · rename_i first second
      exact older (first.trans second.symm)
    · rename_i first _
      exact ((older first).trans _ _ _ joined).trans _ _ _ (older same)
    · rename_i _ second
      exact (older same).trans _ _ _ ((joined.symm _ _).trans _ _ _ ((older second).symm _ _))
    · exact older same
  · intro connected
    induction connected with
    | rel one other listed =>
        rcases List.mem_append.mp listed with old | new
        · have same := (separates one other).mpr (.rel _ _ old)
          rw [UnionFind.united, UnionFind.united, same]
        · obtain rfl := List.mem_singleton.mp new
          simp [UnionFind.united]
    | refl _ => rfl
    | symm _ _ _ ih => exact ih.symm
    | trans _ _ _ _ _ left right => exact left.trans right

/-- After uniting the pairs, every element has a root, as many steps away as there are pairs at
most, and two have the same exactly when the pairs connect them. -/
theorem exists_roots_foldl_unite {fuel : Nat} (pairs : List (α × α))
    (enough : pairs.length ≤ fuel) :
    ∃ roots : α → α, Represents (pairs.foldl (unite fuel) id) pairs.length roots ∧
      Separates roots pairs := by
  induction pairs using List.reverseRecOn with
  | nil => exact ⟨id, represents_self, separates_nil⟩
  | append_singleton pairs pair ih =>
      rw [List.length_append, List.length_singleton] at enough
      obtain ⟨roots, represents, separates⟩ := ih (by omega)
      refine ⟨united roots pair, ?_, separates.united pair⟩
      rw [List.foldl_append, List.length_append]
      exact represents.unite (by omega) pair

end UnionFind
end Fghj
