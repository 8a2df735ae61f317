import Mathlib.Data.List.Infix

/-!
# Searching for a pattern

Where a pattern stands first in a list, and lists that are put together from blocks each of which
ends where the pattern stands first.
-/

namespace Fghj
namespace Search

variable {α : Type} {pattern : List α}

/-- The pattern stands at the end of the block and nowhere before. -/
def Block (pattern block : List α) : Prop :=
  (∃ body, block = body ++ pattern) ∧ ¬pattern <:+: block.dropLast

theorem Block.ne_nil {block : List α} (solid : pattern ≠ []) (ends : Block pattern block) :
    block ≠ [] := by
  obtain ⟨⟨body, rfl⟩, -⟩ := ends
  simp [solid]

variable [DecidableEq α]

/-- The first position the pattern stands at. -/
def find (pattern : List α) : List α → Option Nat
  | [] => if pattern = [] then some 0 else none
  | item :: items =>
      if pattern <+: item :: items then some 0 else (find pattern items).map (· + 1)

theorem find_eq_none_iff (solid : pattern ≠ []) {items : List α} :
    find pattern items = none ↔ ¬pattern <:+: items := by
  induction items with
  | nil => simp [find, solid]
  | cons item items ih =>
      rw [find, List.infix_cons_iff, not_or]
      split
      · rename_i here
        simp [here]
      · rename_i elsewhere
        simp [elsewhere, ih]

/-- What is found ends a block, with what comes after it left over. -/
theorem find_eq_some (solid : pattern ≠ []) {items : List α} {place : Nat}
    (found : find pattern items = some place) :
    Block pattern (items.take (place + pattern.length)) ∧
      items.take (place + pattern.length) = items.take place ++ pattern := by
  induction items generalizing place with
  | nil => simp [find, solid] at found
  | cons item items ih =>
      rw [find] at found
      split at found
      · rename_i here
        cases found
        obtain ⟨rest, whole⟩ := here
        rw [← whole, Nat.zero_add, List.take_left, List.take_zero, List.nil_append]
        refine ⟨⟨⟨[], rfl⟩, fun inside => ?_⟩, rfl⟩
        have short := inside.length_le
        have long := List.length_pos_of_ne_nil solid
        rw [List.length_dropLast] at short
        omega
      · rename_i elsewhere
        obtain ⟨later, here, rfl⟩ := Option.map_eq_some_iff.mp found
        obtain ⟨⟨-, first⟩, same⟩ := ih here
        rw [Nat.add_right_comm, List.take_succ_cons, List.take_succ_cons, same, List.cons_append]
        refine ⟨⟨⟨item :: items.take later, rfl⟩, fun inside => ?_⟩, rfl⟩
        have some : items.take later ++ pattern ≠ [] := by simp [solid]
        rw [List.dropLast_cons_of_ne_nil some, List.infix_cons_iff] at inside
        rcases inside with here | inside
        · refine elsewhere (here.trans (List.cons_prefix_cons.mpr ⟨rfl, ?_⟩))
          rw [← same]
          exact (List.dropLast_prefix _).trans (List.take_prefix _ _)
        · exact first (by rwa [same])

/-- The end of a block is found, whatever comes after it. -/
theorem Block.find {block : List α} (solid : pattern ≠ []) (ends : Block pattern block)
    (rest : List α) : find pattern (block ++ rest) = some (block.length - pattern.length) := by
  obtain ⟨⟨body, rfl⟩, first⟩ := ends
  rw [List.length_append, Nat.add_sub_cancel]
  induction body with
  | nil =>
      obtain ⟨item, items, rfl⟩ := List.exists_cons_of_ne_nil solid
      rw [List.nil_append, List.cons_append, Search.find,
        if_pos (List.cons_append ▸ List.prefix_append _ _)]
      rfl
  | cons item body ih =>
      have some : body ++ pattern ≠ [] := by simp [solid]
      rw [List.cons_append, List.dropLast_cons_of_ne_nil some, List.infix_cons_iff, not_or] at first
      have elsewhere : ¬pattern <+: item :: (body ++ pattern ++ rest) := by
        intro here
        refine first.1 (List.prefix_of_prefix_length_le here ?_ ?_)
        · refine List.cons_prefix_cons.mpr ⟨rfl, ?_⟩
          exact (List.dropLast_prefix _).trans (List.prefix_append _ _)
        · have long := List.length_pos_of_ne_nil solid
          rw [List.length_cons, List.length_dropLast, List.length_append]
          omega
      rw [List.cons_append, List.cons_append, Search.find, if_neg elsewhere, ih first.2]
      rfl

/-- Blocks one after the other fall apart in one way only. -/
theorem blocks_unique (solid : pattern ≠ []) {blocks others : List (List α)} {rest : List α}
    (ends : ∀ block ∈ blocks, Block pattern block)
    (others_end : ∀ block ∈ others, Block pattern block)
    (open_rest : ¬pattern <:+: rest) (same : blocks.flatten ++ rest = others.flatten) :
    blocks = others ∧ rest = [] := by
  induction blocks generalizing others with
  | nil =>
      cases others with
      | nil => exact ⟨rfl, same⟩
      | cons other others =>
          obtain ⟨⟨⟨body, rfl⟩, -⟩, -⟩ := List.forall_mem_cons.mp others_end
          refine absurd ⟨body, others.flatten, ?_⟩ open_rest
          simpa using same.symm
  | cons block blocks ih =>
      obtain ⟨first, later⟩ := List.forall_mem_cons.mp ends
      cases others with
      | nil =>
          rw [List.flatten_cons, List.append_assoc] at same
          exact absurd (List.append_eq_nil_iff.mp same).1 (first.ne_nil solid)
      | cons other others =>
          obtain ⟨other_first, other_later⟩ := List.forall_mem_cons.mp others_end
          rw [List.flatten_cons, List.flatten_cons, List.append_assoc] at same
          have places := (first.find solid _).symm.trans
            ((congrArg (Search.find pattern) same).trans (other_first.find solid _))
          have sizes : block.length = other.length := by
            obtain ⟨⟨body, rfl⟩, -⟩ := first
            obtain ⟨⟨other_body, rfl⟩, -⟩ := other_first
            simp only [List.length_append, Nat.add_sub_cancel, Option.some.injEq] at places ⊢
            omega
          obtain ⟨rfl, tails⟩ := List.append_inj same sizes
          obtain ⟨rfl, nothing⟩ := ih later other_later tails
          exact ⟨rfl, nothing⟩

/-! ## What stands between the patterns -/

/-- What stands before, between and after the first so many places of the pattern. -/
def piecesWithin (pattern : List α) : Nat → List α → List (List α)
  | 0, items => [items]
  | fuel + 1, items =>
      match find pattern items with
      | some place =>
          items.take place :: piecesWithin pattern fuel (items.drop (place + pattern.length))
      | none => [items]

/-- What stands before, between and after the places of the pattern. -/
def pieces (pattern items : List α) : List (List α) := piecesWithin pattern items.length items

theorem find_place_lt (solid : pattern ≠ []) {items : List α} {place : Nat}
    (found : find pattern items = some place) : place + pattern.length ≤ items.length := by
  have sizes := congrArg List.length (find_eq_some solid found).2
  have long := List.length_pos_of_ne_nil solid
  simp only [List.length_take, List.length_append] at sizes
  omega

theorem piecesWithin_eq (solid : pattern ≠ []) {fuel more : Nat} {items : List α}
    (enough : items.length ≤ fuel) (plenty : items.length ≤ more) :
    piecesWithin pattern fuel items = piecesWithin pattern more items := by
  have long := List.length_pos_of_ne_nil solid
  induction fuel generalizing more items with
  | zero =>
      obtain rfl := List.eq_nil_of_length_eq_zero (Nat.le_zero.mp enough)
      cases more with
      | zero => rfl
      | succ more => simp [piecesWithin, find, solid]
  | succ fuel ih =>
      cases more with
      | zero =>
          obtain rfl := List.eq_nil_of_length_eq_zero (Nat.le_zero.mp plenty)
          simp [piecesWithin, find, solid]
      | succ more =>
          rw [piecesWithin, piecesWithin]
          split
          · rename_i place found
            have inside := find_place_lt solid found
            rw [@ih more _ (by rw [List.length_drop]; omega) (by rw [List.length_drop]; omega)]
          · rfl

theorem pieces_of_absent (solid : pattern ≠ []) {items : List α} (absent : ¬pattern <:+: items) :
    pieces pattern items = [items] := by
  rw [pieces, piecesWithin_eq solid (Nat.le_refl _) (Nat.le_succ _), piecesWithin,
    (find_eq_none_iff solid).mpr absent]

/-- The first piece ends where the pattern stands first. -/
theorem pieces_of_block (solid : pattern ≠ []) {front : List α}
    (ends : Block pattern (front ++ pattern)) (rest : List α) :
    pieces pattern (front ++ pattern ++ rest) = front :: pieces pattern rest := by
  have found := ends.find solid rest
  rw [List.length_append, Nat.add_sub_cancel] at found
  have long := List.length_pos_of_ne_nil solid
  rw [pieces, piecesWithin_eq solid (Nat.le_refl _) (Nat.le_succ _), piecesWithin, found]
  dsimp only
  rw [List.append_assoc, List.take_left, ← List.append_assoc, ← List.length_append, List.drop_left,
    pieces]
  exact congrArg (front :: ·) (piecesWithin_eq solid
    (by simp only [List.length_append]; omega) (Nat.le_refl _))

theorem absent_of_mem_pieces (solid : pattern ≠ []) {items piece : List α}
    (member : piece ∈ pieces pattern items) : ¬pattern <:+: piece := by
  have within : ∀ {fuel : Nat} {items : List α}, items.length ≤ fuel →
      piece ∈ piecesWithin pattern fuel items → ¬pattern <:+: piece := by
    intro fuel
    induction fuel with
    | zero =>
        intro items enough member
        obtain rfl := List.eq_nil_of_length_eq_zero (Nat.le_zero.mp enough)
        rw [List.mem_singleton.mp member, List.infix_nil]
        exact solid
    | succ fuel ih =>
        intro items enough member
        rw [piecesWithin] at member
        split at member
        · rename_i place found
          rcases List.mem_cons.mp member with rfl | later
          · obtain ⟨⟨-, first⟩, same⟩ := find_eq_some solid found
            rw [same] at first
            intro inside
            refine first (inside.trans ?_)
            rw [List.dropLast_append_of_ne_nil solid]
            exact (List.prefix_append _ _).isInfix
          · have long := List.length_pos_of_ne_nil solid
            exact ih (by rw [List.length_drop]; omega) later
        · rename_i none
          rw [List.mem_singleton.mp member]
          exact (find_eq_none_iff solid).mp none
  exact within (Nat.le_refl _) member

/-- Where the pattern stands, there is a first place. -/
theorem exists_block (solid : pattern ≠ []) {items : List α} (inside : pattern <:+: items) :
    ∃ front rest, items = front ++ pattern ++ rest ∧ Block pattern (front ++ pattern) := by
  cases found : find pattern items with
  | none => exact absurd inside ((find_eq_none_iff solid).mp found)
  | some place =>
      obtain ⟨ends, same⟩ := find_eq_some solid found
      refine ⟨items.take place, items.drop (place + pattern.length), ?_, same ▸ ends⟩
      rw [← same, List.take_append_drop]

/-- What is found stands there whatever comes after it. -/
theorem find_of_prefix (solid : pattern ≠ []) {items whole : List α} {place : Nat}
    (found : find pattern items = some place) (starts : items <+: whole) :
    find pattern whole = some place := by
  obtain ⟨ends, -⟩ := find_eq_some solid found
  have inside := find_place_lt solid found
  obtain ⟨more, rfl⟩ := starts
  have place_eq := ends.find solid (items.drop (place + pattern.length) ++ more)
  rw [← List.append_assoc, List.take_append_drop, List.length_take, Nat.min_eq_left inside,
    Nat.add_sub_cancel] at place_eq
  exact place_eq

omit [DecidableEq α] in
theorem not_infix_dropLast (solid : pattern ≠ []) : ¬pattern <:+: pattern.dropLast := by
  intro inside
  have short := inside.length_le
  have long := List.length_pos_of_ne_nil solid
  rw [List.length_dropLast] at short
  omega

omit [DecidableEq α] in
/-- A pattern does not begin where its first item is not. -/
theorem infix_skip {item : α} {pattern front : List α} (absent : item ∉ front) (back : List α) :
    item :: pattern <:+: front ++ back ↔ item :: pattern <:+: back := by
  induction front with
  | nil => rfl
  | cons other front ih =>
      rw [List.mem_cons, not_or] at absent
      rw [List.cons_append, List.infix_cons_iff, List.cons_prefix_cons, ih absent.2]
      simp [absent.1]

omit [DecidableEq α] in
/-- A pattern without the separator stands on one side of it. -/
theorem infix_separated {separator : α} (apart : separator ∉ pattern) {front back : List α} :
    pattern <:+: front ++ separator :: back ↔ pattern <:+: front ∨ pattern <:+: back := by
  constructor
  · rintro ⟨before, after, whole⟩
    rw [List.append_assoc] at whole
    rcases List.append_eq_append_iff.mp whole with ⟨inner, rfl, rest⟩ | ⟨inner, rfl, rest⟩
    · rcases List.append_eq_append_iff.mp rest with ⟨last, rfl, -⟩ | ⟨last, rfl, later⟩
      · exact .inl ⟨before, last, by simp⟩
      · cases last with
        | nil => exact .inl ⟨before, [], by simp⟩
        | cons item last =>
            obtain ⟨rfl, -⟩ := List.cons.inj later
            exact absurd (List.mem_append_right _ List.mem_cons_self) apart
    · cases inner with
      | nil =>
          cases pattern with
          | nil => exact .inl List.nil_infix
          | cons item pattern =>
              obtain ⟨rfl, -⟩ := List.cons.inj rest
              exact absurd List.mem_cons_self apart
      | cons item inner =>
          obtain ⟨rfl, rfl⟩ := List.cons.inj rest
          exact .inr ⟨inner, after, by simp⟩
  · rintro (⟨before, after, rfl⟩ | ⟨before, after, rfl⟩)
    · exact ⟨before, after ++ separator :: back, by simp⟩
    · exact ⟨front ++ separator :: before, after, by simp⟩

omit [DecidableEq α] in
/-- Between parts with something between them that keeps a pattern on one side, it stands nowhere if
it stands in none of them. -/
theorem not_infix_joined {pattern separator : List α}
    (apart : ∀ {front back : List α}, pattern <:+: front ++ (separator ++ back) ↔
      pattern <:+: front ∨ pattern <:+: back) {part : List α} {parts : List (List α)}
    (absent : ∀ other ∈ part :: parts, ¬pattern <:+: other) :
    ¬pattern <:+: part ++ parts.flatMap (separator ++ ·) := by
  induction parts generalizing part with
  | nil => simpa using absent
  | cons other parts ih =>
      obtain ⟨first, later⟩ := List.forall_mem_cons.mp absent
      rw [List.flatMap_cons, List.append_assoc, apart]
      exact not_or_intro first (ih later)

end Search
end Fghj
