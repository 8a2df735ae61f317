import Fghj.Library.Loop
import Mathlib.Algebra.GroupWithZero.Nat
import Mathlib.Data.List.Basic

/-!
# Slices of a text

A text is cut at an offset in bytes of UTF-8.  A cut inside a character, or past the end, is no
cut. Where a pattern stands is told as such an offset, and a loop over slices is one that comes to
no such cut.
-/

namespace Fghj
namespace Slices

/-- The length in bytes. -/
def size (text : List Char) : Nat := (text.map Char.utf8Size).sum

/-- The text before an offset and after it, if it lies between two characters. -/
def splitAt (offset : Nat) : List Char → Option (List Char × List Char)
  | [] => if offset = 0 then some ([], []) else none
  | char :: text =>
      if offset = 0 then some ([], char :: text)
      else if char.utf8Size ≤ offset then
        (splitAt (offset - char.utf8Size) text).map fun halves => (char :: halves.1, halves.2)
      else none

/-- `&text[..stop]` -/
def upTo (text : List Char) (stop : Nat) : Option (List Char) := (splitAt stop text).map Prod.fst

/-- `&text[start..]` -/
def after (text : List Char) (start : Nat) : Option (List Char) := (splitAt start text).map Prod.snd

/-- `&text[start..stop]` -/
def between (text : List Char) (start stop : Nat) : Option (List Char) :=
  (upTo text stop).bind fun front => after front start

/-- The offset of the first place where the pattern stands. -/
def find (pattern : List Char) : List Char → Option Nat
  | [] => if pattern.isEmpty then some 0 else none
  | char :: text =>
      if pattern.isPrefixOf (char :: text) then some 0
      else (find pattern text).map (· + char.utf8Size)

@[simp]
theorem size_nil : size [] = 0 := rfl

@[simp]
theorem size_cons (char : Char) (text : List Char) :
    size (char :: text) = char.utf8Size + size text :=
  rfl

@[simp]
theorem size_append (front back : List Char) : size (front ++ back) = size front + size back := by
  simp [size]

theorem splitAt_size (front back : List Char) :
    splitAt (size front) (front ++ back) = some (front, back) := by
  induction front with
  | nil => cases back <;> rfl
  | cons char front ih =>
      have positive := char.utf8Size_pos
      rw [size_cons, List.cons_append, splitAt, if_neg (by omega), if_pos (by omega),
        Nat.add_sub_cancel_left, ih]
      rfl

theorem upTo_size (front back : List Char) : upTo (front ++ back) (size front) = some front := by
  rw [upTo, splitAt_size, Option.map_some]

theorem after_size (front back : List Char) : after (front ++ back) (size front) = some back := by
  rw [after, splitAt_size, Option.map_some]

theorem between_size (front middle back : List Char) :
    between (front ++ middle ++ back) (size front) (size front + size middle) = some middle := by
  rw [between, ← size_append, upTo_size, Option.bind_some, after_size]

/-- The pattern stands nowhere before the offset that is found. -/
def First (pattern front found : List Char) : Prop :=
  pattern <+: found ∧ ∀ earlier, earlier <:+ front → earlier ≠ [] → ¬pattern <+: earlier ++ found

theorem find_eq_some {pattern front found : List Char} (first : First pattern front found) :
    find pattern (front ++ found) = some (size front) := by
  induction front with
  | nil =>
      have here := List.isPrefixOf_iff_prefix.mpr first.1
      cases found with
      | nil => simp [find, List.prefix_nil.mp first.1]
      | cons char found => simp [find, here]
  | cons char front ih =>
      have later : First pattern front found :=
        ⟨first.1,
          fun earlier suffix => first.2 earlier (suffix.trans (List.suffix_cons char front))⟩
      have elsewhere : pattern.isPrefixOf (char :: (front ++ found)) = false := by
        rw [Bool.eq_false_iff]
        exact fun here => first.2 (char :: front) (List.suffix_refl _) (List.cons_ne_nil _ _)
          (List.isPrefixOf_iff_prefix.mp here)
      rw [List.cons_append, find, elsewhere, ih later, size_cons]
      simp [Nat.add_comm]

theorem find_eq_none {pattern text : List Char} (solid : pattern ≠ [])
    (absent : ∀ rest, rest <:+ text → ¬pattern <+: rest) : find pattern text = none := by
  induction text with
  | nil => simp [find, solid]
  | cons char text ih =>
      have elsewhere : pattern.isPrefixOf (char :: text) = false := by
        rw [Bool.eq_false_iff]
        exact fun here => absent _ (List.suffix_refl _) (List.isPrefixOf_iff_prefix.mp here)
      have later : find pattern text = none :=
        ih fun rest suffix => absent rest (suffix.trans (List.suffix_cons char text))
      rw [find, elsewhere, later]
      rfl

/-- Where a text holds the pattern there is a first place. -/
theorem exists_first {pattern : List Char} (solid : pattern ≠ []) (text : List Char) :
    (∀ rest, rest <:+ text → ¬pattern <+: rest) ∨
      ∃ front found, text = front ++ found ∧ First pattern front found := by
  induction text with
  | nil =>
      refine .inl fun rest suffix here => solid ?_
      rw [List.suffix_nil.mp suffix] at here
      exact List.prefix_nil.mp here
  | cons char text ih =>
      by_cases here : pattern <+: char :: text
      · refine .inr ⟨[], char :: text, rfl, here, fun earlier suffix some => ?_⟩
        exact absurd (List.suffix_nil.mp suffix) some
      · rcases ih with absent | ⟨front, found, rfl, first⟩
        · refine .inl fun rest suffix => ?_
          rcases List.suffix_cons_iff.mp suffix with rfl | later
          · exact here
          · exact absent rest later
        · refine .inr ⟨char :: front, found, rfl, first.1, fun earlier suffix some => ?_⟩
          rcases List.suffix_cons_iff.mp suffix with rfl | later
          · exact here
          · exact first.2 earlier later some

theorem find_char {char : Char} {front : List Char} (absent : char ∉ front) (back : List Char) :
    find [char] (front ++ char :: back) = some (size front) := by
  refine find_eq_some ⟨⟨back, rfl⟩, fun earlier suffix some here => absent ?_⟩
  cases earlier with
  | nil => exact absurd rfl some
  | cons first earlier =>
      obtain ⟨rest, same⟩ := here
      obtain rfl : char = first := (List.cons.inj same).1
      exact suffix.subset List.mem_cons_self

theorem find_char_eq_none {char : Char} {text : List Char} (absent : char ∉ text) :
    find [char] text = none := by
  refine find_eq_none (List.cons_ne_nil _ _) fun rest suffix here => absent ?_
  obtain ⟨later, rfl⟩ := here
  exact suffix.subset List.mem_cons_self

/-! ## The last place of a character -/

/-- The offset of the last place where the character stands. -/
def rfind (mark : Char) : List Char → Option Nat
  | [] => none
  | char :: text =>
      match rfind mark text with
      | some offset => some (char.utf8Size + offset)
      | none => if char = mark then some 0 else none

/-- The text to its last mark, and with it. -/
def upToLast (mark : Char) : List Char → List Char
  | [] => []
  | char :: text => if char = mark ∨ mark ∈ text then char :: upToLast mark text else []

theorem upToLast_eq_nil {mark : Char} {text : List Char} :
    upToLast mark text = [] ↔ mark ∉ text := by
  cases text with
  | nil => simp [upToLast]
  | cons char text =>
      rw [upToLast, List.mem_cons, not_or]
      split
      · rename_i here
        refine iff_of_false (List.cons_ne_nil _ _) fun absent => ?_
        exact here.elim (fun same => absent.1 same.symm) absent.2
      · rename_i absent
        exact iff_of_true rfl ⟨fun same => absent (.inl same.symm), fun later =>
          absent (.inr later)⟩

/-- The offset behind the last mark, if there is one. -/
theorem map_rfind (mark : Char) (text : List Char) :
    (rfind mark text).map (· + mark.utf8Size) =
      if mark ∈ text then some (size (upToLast mark text)) else none := by
  induction text with
  | nil => rfl
  | cons char text ih =>
      rw [rfind]
      cases found : rfind mark text with
      | some offset =>
          rw [found, Option.map_some] at ih
          split at ih
          · rename_i later
            simp only [Option.map_some, List.mem_cons, later, or_true, if_true, upToLast, size_cons,
              ← Option.some.inj ih]
            congr 1
            omega
          · cases ih
      | none =>
          have absent : mark ∉ text := by
            intro later
            rw [found, if_pos later] at ih
            cases ih
          have none := upToLast_eq_nil.mpr absent
          by_cases here : char = mark
          · subst here
            simp [upToLast, none]
          · simp [absent, here, Ne.symm here]

theorem rfind_elim (mark : Char) (text : List Char) :
    (((rfind mark text).map (· + mark.utf8Size)).getD 0) = size (upToLast mark text) := by
  rw [map_rfind]
  split
  · rfl
  · rename_i absent
    rw [upToLast_eq_nil.mpr absent]
    rfl

theorem upToLast_prefix (mark : Char) (text : List Char) : upToLast mark text <+: text := by
  induction text with
  | nil => exact List.prefix_rfl
  | cons char text ih =>
      rw [upToLast]
      split
      · exact List.cons_prefix_cons.mpr ⟨rfl, ih⟩
      · exact List.nil_prefix

theorem upToLast_mono {mark : Char} {text more : List Char} (grown : text <+: more) :
    upToLast mark text <+: upToLast mark more := by
  induction text generalizing more with
  | nil => exact List.nil_prefix
  | cons char text ih =>
      cases more with
      | nil => exact absurd (List.prefix_nil.mp grown) (List.cons_ne_nil _ _)
      | cons next more =>
          obtain ⟨rfl, rest⟩ := List.cons_prefix_cons.mp grown
          rw [upToLast, upToLast]
          split
          · rename_i here
            rw [if_pos (here.imp id fun listed => rest.subset listed)]
            exact List.cons_prefix_cons.mpr ⟨rfl, ih rest⟩
          · exact List.nil_prefix

/-! ## Loops over slices -/

variable {σ ω : Type}

/-- A pass that may come to no cut; then the loop is over and has no outcome. -/
def guarded : Option (Pass σ ω) → Pass σ (Option ω)
  | none => .done none
  | some (.again state) => .again state
  | some (.done outcome) => .done (some outcome)

/-- The outcome of a loop that comes to no such cut, if the fuel lasts. -/
def loop (pass : σ → Option (Pass σ ω)) (fuel : Nat) (state : σ) : Option (Option ω) :=
  Pass.loop (fun state => guarded (pass state)) fuel state

variable {pass : σ → Option (Pass σ ω)} {state next : σ} {outcome : ω}

theorem loop_again (goesOn : pass state = some (.again next)) (fuel : Nat) :
    loop pass (fuel + 1) state = loop pass fuel next :=
  Pass.loop_again (by simp only [goesOn, guarded]) fuel

theorem loop_done (ends : pass state = some (.done outcome)) (fuel : Nat) :
    loop pass (fuel + 1) state = some (some outcome) :=
  Pass.loop_done (by simp only [ends, guarded]) fuel

end Slices
end Fghj
