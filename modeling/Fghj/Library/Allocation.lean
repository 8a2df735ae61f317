import Mathlib.Data.List.Pairwise

/-!
# Greedy allocation

Requests are served one after the other. Each is given a spot that depends on what is claimed so
far, and claims what it uses there.
-/

namespace Fghj
namespace Allocation

variable {ρ α β : Type} (pick : List β → ρ → α) (uses : ρ → α → List β)

/-- The requests with their spots, served in the order of the list. -/
def place : List β → List ρ → List (ρ × α)
  | _, [] => []
  | claimed, request :: requests =>
      (request, pick claimed request) ::
        place (claimed ++ uses request (pick claimed request)) requests

/-- What some served requests use. -/
def claims (placed : List (ρ × α)) : List β := placed.flatMap fun entry => uses entry.1 entry.2

/-- Nothing the request would use at the spot is claimed. -/
def Free (claimed : List β) (request : ρ) (spot : α) : Prop :=
  ∀ used ∈ uses request spot, used ∉ claimed

/-- At the turn of each request something holds of what is claimed. -/
def InTurn (condition : List β → ρ → Prop) : List β → List ρ → Prop
  | _, [] => True
  | claimed, request :: requests =>
      condition claimed request ∧
        InTurn condition (claimed ++ uses request (pick claimed request)) requests

variable {pick uses}

@[simp]
theorem map_fst_place (claimed : List β) (requests : List ρ) :
    (place pick uses claimed requests).map Prod.fst = requests := by
  induction requests generalizing claimed with
  | nil => rfl
  | cons request requests ih => rw [place, List.map_cons, ih]

theorem place_append (claimed : List β) (front back : List ρ) :
    place pick uses claimed (front ++ back) =
      place pick uses claimed front ++
        place pick uses (claimed ++ claims uses (place pick uses claimed front)) back := by
  induction front generalizing claimed with
  | nil => simp [place, claims]
  | cons request front ih =>
      rw [List.cons_append, place, ih, place, List.cons_append]
      simp [claims, List.append_assoc]

variable {requests : List ρ} {claimed : List β}

theorem InTurn.imp {condition other : List β → ρ → Prop}
    (stronger : ∀ claimed request, condition claimed request → other claimed request)
    (turns : InTurn pick uses condition claimed requests) :
    InTurn pick uses other claimed requests := by
  induction requests generalizing claimed with
  | nil => trivial
  | cons request requests ih => exact ⟨stronger claimed request turns.1, ih turns.2⟩

/-- What holds of every pick at its turn holds of every spot. -/
theorem InTurn.spot {good : ρ × α → Prop}

    (turns : InTurn pick uses (fun claimed request => good (request, pick claimed request)) claimed
      requests) :
    ∀ entry ∈ place pick uses claimed requests, good entry := by
  induction requests generalizing claimed with
  | nil =>
      intro entry member
      exact absurd member List.not_mem_nil
  | cons request requests ih =>
      intro entry member
      rcases List.mem_cons.mp member with rfl | later
      · exact turns.1
      · exact ih turns.2 entry later

/-- If every pick is free at its turn, no request uses what was claimed before. -/
theorem InTurn.unclaimed {claimed : List β}

    (turns : InTurn pick uses (fun claimed request =>
      Free uses claimed request (pick claimed request)) claimed requests) :
    ∀ entry ∈ place pick uses claimed requests, Free uses claimed entry.1 entry.2 := by
  induction requests generalizing claimed with
  | nil =>
      intro entry member
      exact absurd member List.not_mem_nil
  | cons request requests ih =>
      intro entry member
      rcases List.mem_cons.mp member with rfl | later
      · exact turns.1
      · intro used inside before
        exact ih turns.2 entry later used inside (List.mem_append_left _ before)

/-- If every pick is free at its turn, no two requests use the same. -/
theorem InTurn.exclusive {claimed : List β}

    (turns : InTurn pick uses (fun claimed request =>
      Free uses claimed request (pick claimed request)) claimed requests) :
    (place pick uses claimed requests).Pairwise fun first second =>
      ∀ used ∈ uses first.1 first.2, used ∉ uses second.1 second.2 := by
  induction requests generalizing claimed with
  | nil => exact List.Pairwise.nil
  | cons request requests ih =>
      refine List.pairwise_cons.mpr ⟨fun entry later used inside again => ?_, ih turns.2⟩
      exact turns.2.unclaimed entry later used again (List.mem_append_right claimed inside)

/-- Requests that have spots which do not get in each other's way, and are given them whenever they
are free, all get them. -/
theorem place_eq_map {home : ρ → α}
    (returns : ∀ request ∈ requests, ∀ claimed, Free uses claimed request (home request) →
      pick claimed request = home request)
    (apart : requests.Pairwise fun first second =>
      ∀ used ∈ uses first (home first), used ∉ uses second (home second))
    (free : ∀ request ∈ requests, Free uses claimed request (home request)) :
    place pick uses claimed requests = requests.map fun request => (request, home request) := by
  induction requests generalizing claimed with
  | nil => rfl
  | cons request requests ih =>
      have back := returns request List.mem_cons_self claimed (free request List.mem_cons_self)
      rw [List.pairwise_cons] at apart
      rw [place, back, List.map_cons,
        ih (fun other member => returns other (List.mem_cons_of_mem request member)) apart.2]
      intro other member used inside before
      rcases List.mem_append.mp before with earlier | taken
      · exact free other (List.mem_cons_of_mem request member) used inside earlier
      · exact apart.1 other member used taken inside

end Allocation
end Fghj
