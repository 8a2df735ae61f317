import Mathlib.Data.List.Infix

/-!
# Paths as texts

A path is a list of parts without a separator in them, written one after the other with a `/`
between any two. What stands before one of its separators is the path of the parts up to there.
-/

namespace Fghj
namespace Paths

/-- The text of a path. -/
def path (parts : List (List Char)) : List Char := ['/'].intercalate parts

variable {parts above below : List (List Char)}

@[simp]
theorem path_nil : path [] = [] := rfl

@[simp]
theorem path_singleton (part : List Char) : path [part] = part := by
  simp [path]

theorem path_cons (part : List Char) (nonempty : below ≠ []) :
    path (part :: below) = part ++ '/' :: path below := by
  cases below with
  | nil => exact absurd rfl nonempty
  | cons next below => simp [path, List.intercalate_cons_cons]

theorem splitOn_path (nonempty : parts ≠ []) (single : ∀ part ∈ parts, '/' ∉ part) :
    (path parts).splitOn '/' = parts :=
  List.splitOn_intercalate '/' single nonempty

theorem path_append (someAbove : above ≠ []) (someBelow : below ≠ []) :
    path (above ++ below) = path above ++ '/' :: path below := by
  induction above with
  | nil => exact absurd rfl someAbove
  | cons part above ih =>
      cases above with
      | nil => rw [List.singleton_append, path_cons part someBelow, path_singleton]
      | cons next above =>
          rw [List.cons_append, path_cons part (by simp), ih (List.cons_ne_nil _ _),
            path_cons part (List.cons_ne_nil _ _), List.append_assoc, List.cons_append]

theorem path_inj {other : List (List Char)} (nonempty : parts ≠ []) (filled : other ≠ [])
    (single : ∀ part ∈ parts, '/' ∉ part) (flat : ∀ part ∈ other, '/' ∉ part) :
    path parts = path other ↔ parts = other := by
  refine ⟨fun same => ?_, fun same => by rw [same]⟩
  rw [← splitOn_path nonempty single, same, splitOn_path filled flat]

/-- Before its separators stand the paths of the parts above. -/
theorem path_eq_append_iff (nonempty : parts ≠ []) (single : ∀ part ∈ parts, '/' ∉ part)
    {directory : List Char} :
    (∃ rest, path parts = directory ++ '/' :: rest) ↔
      ∃ above below, above ≠ [] ∧ below ≠ [] ∧ parts = above ++ below ∧ directory = path above := by
  constructor
  · rintro ⟨rest, same⟩
    refine ⟨directory.splitOn '/', rest.splitOn '/', List.splitOn_ne_nil _ _,
      List.splitOn_ne_nil _ _, ?_, (@List.intercalate_splitOn _ directory _ _ '/').symm⟩
    rw [← splitOn_path nonempty single, same, List.splitOn_append_cons_self]
  · rintro ⟨above, below, someAbove, someBelow, rfl, rfl⟩
    exact ⟨path below, path_append someAbove someBelow⟩

end Paths
end Fghj
