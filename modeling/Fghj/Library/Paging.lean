import Mathlib.Algebra.GroupWithZero.Nat
import Mathlib.Data.List.DropRight
import Mathlib.Data.List.Infix
import Mathlib.Order.Lattice

/-!
# Reading a growing list in pages

A reader asks for the last items of a list and then, page by page, for the items before those it
has. Items are ordered by a key, and the list may grow at its end between two requests. The pages
put together are the end of the list as the first request met it, so nothing is read twice and
nothing is passed over.
-/

namespace Fghj
namespace Paging

variable {α κ τ : Type} [LinearOrder κ] (key : α → κ)

/-- Items in the order of their keys, no two of them with the same key. -/
def Ascending (items : List α) : Prop := items.Pairwise fun one other => key one < key other

/-- The last items of those before a key, or of all. -/
def page (items : List α) (before : Option κ) (size : Nat) : List α :=
  (items.filter fun item => before.all fun bound => decide (key item < bound)).rtake size

/-- The pages of a reader who asks for what stands before the last page until one is empty. Each
request says what it meets and how many items it asks for. -/
def pages (serve : τ → Option κ → Nat → List α) : Option κ → List (τ × Nat) → List (List α)
  | _, [] => []
  | before, (source, size) :: requests =>
      match serve source before size with
      | [] => []
      | first :: rest => (first :: rest) :: pages serve (some (key first)) requests

variable {key} {items older front back : List α} {first : α} {bound : κ} {size : Nat}

theorem page_none (items : List α) (size : Nat) : page key items none size = items.rtake size := by
  simp [page]

/-- The same items in the order of their keys are the same list. -/
theorem Ascending.eq_of_perm {others : List α} (ascending : Ascending key items)
    (other_ascending : Ascending key others) (same : items.Perm others) : items = others :=
  List.Perm.eq_of_pairwise (fun _ _ _ _ less more => (lt_asymm less more).elim) ascending
    other_ascending same

/-- The items before one of them are those that stand before it. -/
theorem Ascending.filter_lt (ascending : Ascending key (front ++ first :: back)) :
    ((front ++ first :: back).filter fun item => decide (key item < key first)) = front := by
  obtain ⟨-, behind, apart⟩ := List.pairwise_append.mp ascending
  have kept : front.filter (fun item => decide (key item < key first)) = front :=
    List.filter_eq_self.mpr fun item member =>
      decide_eq_true (apart item member first List.mem_cons_self)
  have left : (first :: back).filter (fun item => decide (key item < key first)) = [] := by
    refine List.filter_eq_nil_iff.mpr fun item member => ?_
    rw [decide_eq_true_eq, not_lt]
    rcases List.mem_cons.mp member with rfl | later
    · exact le_refl _
    · exact le_of_lt (List.rel_of_pairwise_cons behind later)
  rw [List.filter_append, kept, left, List.append_nil]

/-- The last items of a list and the last of those before them are the last of the list. -/
theorem rtake_take_append_rtake (items : List α) (size more : Nat) :
    (items.take (items.length - size)).rtake more ++ items.rtake size =
      items.rtake (size + more) := by
  have short : (items.take (items.length - size)).length = items.length - size := by
    rw [List.length_take]
    omega
  have whole := List.take_append_drop (items.length - size) items
  calc (items.take (items.length - size)).rtake more ++ items.rtake size
      = (items.take (items.length - size) ++ items.drop (items.length - size)).drop
          (items.length - size - more) := by
        rw [List.drop_append_of_le_length (by omega), List.rtake, List.rtake, short]
    _ = items.rtake (size + more) := by rw [whole, List.rtake, Nat.sub_add_eq]

/-- The items before a key are those of the items before a greater one. -/
theorem filter_lt_filter_lt {low high : κ} (less : low < high) (items : List α) :
    (items.filter fun item => decide (key item < high)).filter
        (fun item => decide (key item < low)) =
      items.filter fun item => decide (key item < low) := by
  rw [List.filter_filter]
  congr 1
  funext item
  by_cases before : key item < low
  · simp [before, before.trans less]
  · simp [before]

/-- A reader whose requests all meet the same items before those read so far reads the last of
them. -/
theorem pages_flatten {serve : τ → Option κ → Nat → List α} {shown : τ → List α}
    {requests : List (τ × Nat)} {before : Option κ} (ascending : Ascending key older)
    (served : ∀ request ∈ requests, ∀ before size,
      serve request.1 before size = page key (shown request.1) before size)
    (met : ∀ request ∈ requests.head?,
      (shown request.1).filter (fun item => before.all fun bound => decide (key item < bound)) =
        older)
    (agree : ∀ request ∈ requests, ∀ read ∈ older,
      (shown request.1).filter (fun item => decide (key item < key read)) =
        older.filter fun item => decide (key item < key read))
    (sizes : ∀ request ∈ requests, 1 ≤ request.2) :
    (pages key serve before requests).reverse.flatten =
      older.rtake (requests.map Prod.snd).sum := by
  induction requests generalizing older before with
  | nil => simp [pages]
  | cons request requests ih =>
      obtain ⟨source, size⟩ := request
      have here : serve source before size = older.rtake size := by
        rw [served _ List.mem_cons_self, page, met _ rfl]
      have large : 1 ≤ size := sizes _ List.mem_cons_self
      simp only [pages, here, List.map_cons, List.sum_cons]
      cases got : older.rtake size with
      | nil =>
          have empty : older = [] := by
            have lengths := congrArg List.length got
            simp only [List.rtake, List.length_drop, List.length_nil] at lengths
            exact List.length_eq_zero_iff.mp (by omega)
          simp [empty]
      | cons first rest =>
          have joined : older.take (older.length - size) ++ first :: rest = older := by
            rw [← got, List.rtake, List.take_append_drop]
          have sorted : Ascending key (older.take (older.length - size) ++ first :: rest) :=
            joined.symm ▸ ascending
          have member : first ∈ older := joined ▸ List.mem_append_right _ List.mem_cons_self
          have left : older.filter (fun item => decide (key item < key first)) =
              older.take (older.length - size) := by
            conv_lhs => rw [← joined]
            exact sorted.filter_lt
          -- the reader goes on before the first item of this page
          have met_next (request : τ × Nat) (asked : request ∈ requests) :
              (shown request.1).filter (fun item => decide (key item < key first)) =
                older.take (older.length - size) :=
            (agree request (List.mem_cons_of_mem _ asked) first member).trans left
          have next := @ih (older.take (older.length - size)) (some (key first))
            (ascending.sublist (List.take_sublist _ _))
            (fun request asked => served request (List.mem_cons_of_mem _ asked))
            (fun request asked => met_next request (List.mem_of_head? asked))
            (fun request asked read older_read => by
              have less : key read < key first := by
                rw [← left] at older_read
                exact of_decide_eq_true (List.mem_filter.mp older_read).2
              rw [← filter_lt_filter_lt less, met_next request asked])
            (fun request asked => sizes request (List.mem_cons_of_mem _ asked))
          rw [List.reverse_cons, List.flatten_append, next, List.flatten_singleton, ← got]
          exact rtake_take_append_rtake older size _

/-- The pages of a list that grows at its end are the last items of the list as the first request
met it. -/
theorem pages_of_growing {serve : τ → Option κ → Nat → List α} {shown : τ → List α}
    {requests : List (τ × Nat)} {items : List α} (sorted : Ascending key items)
    (served : ∀ request ∈ requests, ∀ before size,
      serve request.1 before size = page key (shown request.1) before size)
    (ascending : ∀ request ∈ requests, Ascending key (shown request.1))
    (met : ∀ request ∈ requests.head?, shown request.1 = items)
    (grown : ∀ request ∈ requests, items <+: shown request.1)
    (sizes : ∀ request ∈ requests, 1 ≤ request.2) :
    (pages key serve none requests).reverse.flatten = items.rtake (requests.map Prod.snd).sum := by
  refine pages_flatten sorted served (fun request asked => ?_) (fun request asked read member => ?_)
    sizes
  · simpa using met request asked
  · obtain ⟨added, whole⟩ := grown request asked
    obtain ⟨front, back, split⟩ := List.append_of_mem member
    have longer := ascending request asked
    rw [← whole, split, List.append_assoc, List.cons_append] at longer
    rw [← whole, split, List.append_assoc, List.cons_append, longer.filter_lt]
    exact (Ascending.filter_lt (split ▸ sorted)).symm

end Paging
end Fghj
