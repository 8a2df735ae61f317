import Fghj.Library.Text
import Mathlib.Data.List.Forall2

/-!
# Lower case

The lower case of a text is put together from the lower cases of its characters. A letter of ASCII
has one of its own, two others have one with a letter of ASCII in it, and the only character whose
lower case depends on its neighbours looks no further than the next slash. So a pattern of ASCII
starts or ends the lower case of a text exactly where it does in some case of the text itself.
-/

namespace Fghj
namespace Text

/-- What a character may become in lower case. -/
inductive Lowered : Char → List Char → Prop where
  | ascii {char : Char} (small : char.toNat < 128) : Lowered char [char.toLower]
  /-- The sign of the unit Kelvin. -/
  | kelvin : Lowered (Char.ofNat 0x212A) ['k']
  /-- The capital I with a dot, whose dot stays. -/
  | dotted : Lowered (Char.ofNat 0x130) ['i', Char.ofNat 0x307]
  | other {char : Char} {piece : List Char} (large : 128 ≤ char.toNat) (some : piece ≠ [])
      (foreign : ∀ lowered ∈ piece, 128 ≤ lowered.toNat)
      (space : ∀ lowered ∈ piece, isWhitespace lowered = isWhitespace char) : Lowered char piece

/-- The lower case of a list of characters. -/
def lower (toLowercase : String → String) (text : List Char) : List Char :=
  (toLowercase (String.ofList text)).toList

/-- What the standard library's lower case is relied on for. -/
structure Lowercases (toLowercase : String → String) : Prop where
  pieces (text : List Char) : ∃ pieces, List.Forall₂ Lowered text pieces ∧
    lower toLowercase text = pieces.flatten
  /-- No character looks beyond a slash. -/
  slash (front back : List Char) : lower toLowercase (front ++ '/' :: back) =
    lower toLowercase front ++ '/' :: lower toLowercase back
  /-- What lower case is made of is its own lower case. -/
  settled {text : List Char} (made : ∀ char ∈ text, ∃ source, char ∈ lower toLowercase source) :
    lower toLowercase text = text

/-! ## ASCII -/

variable {char : Char}

theorem toLower_eq_self_of_large (large : 128 ≤ char.toNat) : char.toLower = char := by
  rw [toLower_eq_self_iff]
  delta Char.isUpper
  rw [decide_eq_false_iff_not, UInt32.le_iff_toNat_le]
  rintro ⟨-, most⟩
  have : char.toNat ≤ 90 := most
  omega

/-- A capital and its small letter are both letters. -/
theorem toLower_eq_iff {char symbol : Char} (plain : symbol.isAlpha = false) :
    char.toLower = symbol ↔ char = symbol := by
  delta Char.isAlpha at plain
  rw [Bool.or_eq_false_iff] at plain
  cases upper : char.isUpper with
  | false => rw [toLower_eq_self_iff.mpr upper]
  | true =>
      constructor
      · rintro rfl
        rw [isLower_toLower upper] at plain
        cases plain.2
      · rintro rfl
        rw [upper] at plain
        cases plain.1

theorem count_toAsciiLowercase {symbol : Char} (plain : symbol.isAlpha = false)
    (text : List Char) : (toAsciiLowercase text).count symbol = text.count symbol := by
  induction text with
  | nil => rfl
  | cons char text ih =>
      rw [toAsciiLowercase] at ih ⊢
      simp only [List.map_cons, List.count_cons, ih, beq_iff_eq, toLower_eq_iff plain]

theorem mem_toAsciiLowercase {symbol : Char} (plain : symbol.isAlpha = false) {text : List Char} :
    symbol ∈ toAsciiLowercase text ↔ symbol ∈ text := by
  rw [← List.count_pos_iff, count_toAsciiLowercase plain, List.count_pos_iff]

theorem not_space_of_letter
    (letter : 65 ≤ char.toNat ∧ char.toNat ≤ 90 ∨ 97 ≤ char.toNat ∧ char.toNat ≤ 122) :
    isWhitespace char = false := by
  simp only [isWhitespace, Bool.or_eq_false_iff, Bool.and_eq_false_iff, decide_eq_false_iff_not,
    beq_eq_false_iff_ne]
  omega

theorem bounds_of_isLower (lower : char.isLower) : 97 ≤ char.toNat ∧ char.toNat ≤ 122 := by
  delta Char.isLower at lower
  rw [Bool.and_eq_true, decide_eq_true_eq, decide_eq_true_eq] at lower
  exact ⟨UInt32.le_iff_toNat_le.mp lower.1, UInt32.le_iff_toNat_le.mp lower.2⟩

theorem bounds_of_isUpper (upper : char.isUpper) : 65 ≤ char.toNat ∧ char.toNat ≤ 90 := by
  delta Char.isUpper at upper
  rw [decide_eq_true_eq] at upper
  exact ⟨UInt32.le_iff_toNat_le.mp upper.1, UInt32.le_iff_toNat_le.mp upper.2⟩

theorem toLower_toLower (char : Char) : char.toLower.toLower = char.toLower := by
  cases upper : char.isUpper with
  | false => rw [toLower_eq_self_iff.mpr upper, toLower_eq_self_iff.mpr upper]
  | true =>
      have small := bounds_of_isLower (isLower_toLower upper)
      rw [toLower_eq_self_iff, Bool.eq_false_iff]
      intro again
      have := bounds_of_isUpper again
      omega

theorem isWhitespace_toLower (char : Char) : isWhitespace char.toLower = isWhitespace char := by
  cases upper : char.isUpper with
  | false => rw [toLower_eq_self_iff.mpr upper]
  | true =>
      rw [not_space_of_letter (.inl (bounds_of_isUpper upper)),
        not_space_of_letter (.inr (bounds_of_isLower (isLower_toLower upper)))]

/-! ## Unicode -/

section Lower

variable {toLowercase : String → String} {symbol : Char} {text pattern : List Char}

theorem Lowered.count (plain : symbol.isAlpha = false) (small : symbol.toNat < 128)
    {piece : List Char} (lowered : Lowered char piece) :
    piece.count symbol = if char = symbol then 1 else 0 := by
  cases lowered with
  | ascii => simp [List.count_singleton, toLower_eq_iff plain]
  | kelvin =>
      rw [if_neg (by rintro rfl; exact absurd small (by decide))]
      refine List.count_eq_zero.mpr fun member => ?_
      rw [List.mem_singleton.mp member] at plain
      exact absurd plain (by decide)
  | dotted =>
      rw [if_neg (by rintro rfl; exact absurd small (by decide))]
      refine List.count_eq_zero.mpr fun member => ?_
      simp only [List.mem_cons, List.not_mem_nil, or_false] at member
      rcases member with rfl | rfl
      · exact absurd plain (by decide)
      · exact absurd small (by decide)
  | other large some foreign =>
      rw [if_neg (by rintro rfl; omega)]
      refine List.count_eq_zero.mpr fun member => ?_
      have := foreign symbol member
      omega

/-- A symbol of ASCII stands in the lower case as often as in the text. -/
theorem Lowercases.count (lowercases : Lowercases toLowercase) (plain : symbol.isAlpha = false)
    (small : symbol.toNat < 128) (text : List Char) :
    (lower toLowercase text).count symbol = text.count symbol := by
  obtain ⟨pieces, lowered, whole⟩ := lowercases.pieces text
  rw [whole]
  clear whole
  induction lowered with
  | nil => rfl
  | cons head tail ih =>
      rw [List.flatten_cons, List.count_append, ih, head.count plain small, List.count_cons,
        Nat.add_comm]
      simp only [beq_iff_eq]

theorem Lowercases.mem (lowercases : Lowercases toLowercase) (plain : symbol.isAlpha = false)
    (small : symbol.toNat < 128) : symbol ∈ lower toLowercase text ↔ symbol ∈ text := by
  rw [← List.count_pos_iff, lowercases.count plain small, List.count_pos_iff]

/-- A pattern that no other piece begins starts the pieces where it starts the small letters. -/
theorem prefix_flatten_iff {relation : Char → List Char → Prop} (good : List Char → Prop)
    (tail : ∀ first rest, good (first :: rest) → good rest)
    (only : ∀ char piece, relation char piece → piece = [char.toLower] ∨
      ∀ first rest, good (first :: rest) → first ≠ char.toLower ∧
        ∀ more, ¬first :: rest <+: piece ++ more)
    {pieces : List (List Char)} (related : List.Forall₂ relation text pieces)
    (fine : good pattern) : pattern <+: pieces.flatten ↔ pattern <+: toAsciiLowercase text := by
  induction related generalizing pattern with
  | nil => rfl
  | @cons char piece text pieces head _ ih =>
      cases pattern with
      | nil => exact ⟨fun _ => List.nil_prefix, fun _ => List.nil_prefix⟩
      | cons first rest =>
          rw [List.flatten_cons, toAsciiLowercase, List.map_cons, ← toAsciiLowercase]
          rcases only char piece head with rfl | foreign
          · rw [List.singleton_append, List.cons_prefix_cons, List.cons_prefix_cons,
              ih (tail first rest fine)]
          · obtain ⟨different, absent⟩ := foreign first rest fine
            refine ⟨fun starts => absurd starts (absent _), fun starts => ?_⟩
            exact absurd (List.cons_prefix_cons.mp starts).1 different

/-- What a character outside of ASCII becomes has no character in it that a pattern of ASCII holds,
but for the letters k and i. -/
theorem Lowered.cases_ascii {piece : List Char} (lowered : Lowered char piece) :
    piece = [char.toLower] ∨ 128 ≤ char.toLower.toNat ∧
      (piece = ['k'] ∨ piece = ['i', Char.ofNat 0x307] ∨
        piece ≠ [] ∧ ∀ lowered ∈ piece, 128 ≤ lowered.toNat) := by
  cases lowered with
  | ascii => exact .inl rfl
  | kelvin => exact .inr ⟨by decide, .inl rfl⟩
  | dotted => exact .inr ⟨by decide, .inr (.inl rfl)⟩
  | other large some foreign =>
      exact .inr ⟨by rwa [toLower_eq_self_of_large large], .inr (.inr ⟨some, foreign⟩)⟩

/-- A pattern without a k, and with no i at its end, starts the lower case of a text where it starts
the text in some case. -/
theorem Lowercases.prefix_iff (lowercases : Lowercases toLowercase) (text : List Char)
    (small : ∀ char ∈ pattern, char.toNat < 128 ∧ char ≠ 'k') (last : pattern.getLast? ≠ some 'i') :
    pattern <+: lower toLowercase text ↔ pattern <+: toAsciiLowercase text := by
  obtain ⟨pieces, lowered, whole⟩ := lowercases.pieces text
  rw [whole]
  refine prefix_flatten_iff (fun pattern : List Char =>
    (∀ char ∈ pattern, char.toNat < 128 ∧ char ≠ 'k') ∧ pattern.getLast? ≠ some 'i')
    ?_ ?_ lowered ⟨small, last⟩
  · rintro first rest ⟨small, last⟩
    refine ⟨fun char member => small char (List.mem_cons_of_mem _ member), fun ends => last ?_⟩
    rw [List.getLast?_cons, ends, Option.getD_some]
  · intro char piece held
    rcases held.cases_ascii with same | ⟨large, foreign⟩
    · exact .inl same
    · refine .inr ?_
      rintro first rest ⟨small, last⟩
      have firstSmall := small first List.mem_cons_self
      refine ⟨by rintro rfl; omega, fun more starts => ?_⟩
      rcases foreign with rfl | rfl | ⟨some, foreign⟩
      · exact firstSmall.2 (List.cons_prefix_cons.mp starts).1
      · obtain ⟨rfl, rest_starts⟩ := List.cons_prefix_cons.mp starts
        cases rest with
        | nil => exact last rfl
        | cons next rest =>
            obtain ⟨rfl, -⟩ := List.cons_prefix_cons.mp rest_starts
            exact absurd (small _ (List.mem_cons_of_mem _ List.mem_cons_self)).1 (by decide)
      · obtain ⟨head, piece, rfl⟩ := List.exists_cons_of_ne_nil some
        obtain ⟨rfl, -⟩ := List.cons_prefix_cons.mp starts
        have := foreign first List.mem_cons_self
        omega

/-- A pattern without a k ends the lower case of a text where it ends the text in some case. -/
theorem Lowercases.suffix_iff (lowercases : Lowercases toLowercase) (text : List Char)
    (small : ∀ char ∈ pattern, char.toNat < 128 ∧ char ≠ 'k') :
    pattern <:+ lower toLowercase text ↔ pattern <:+ toAsciiLowercase text := by
  obtain ⟨pieces, lowered, whole⟩ := lowercases.pieces text
  have turned : List.Forall₂ (fun char piece => Lowered char piece.reverse) text.reverse
      (pieces.reverse.map List.reverse) := by
    rw [List.map_reverse, List.forall₂_reverse_iff, List.forall₂_map_right_iff]
    simpa using lowered
  have back : (toAsciiLowercase text).reverse = toAsciiLowercase text.reverse :=
    List.map_reverse.symm
  rw [whole, ← List.reverse_prefix, ← List.reverse_prefix, List.reverse_flatten,
    ← List.map_reverse, back]
  refine prefix_flatten_iff
    (fun pattern : List Char => ∀ char ∈ pattern, char.toNat < 128 ∧ char ≠ 'k') ?_ ?_ turned
    (fun char member => small char (List.mem_reverse.mp member))
  · intro first rest small char member
    exact small char (List.mem_cons_of_mem _ member)
  · intro char piece held
    rcases held.cases_ascii with same | ⟨large, foreign⟩
    · refine .inl ?_
      rw [← List.reverse_reverse piece, same, List.reverse_singleton]
    · refine .inr fun first rest small => ?_
      have firstSmall := small first List.mem_cons_self
      refine ⟨by rintro rfl; omega, fun more starts => ?_⟩
      rcases foreign with one | two | ⟨some, foreign⟩
      · rw [← List.reverse_reverse piece, one] at starts
        exact firstSmall.2 (List.cons_prefix_cons.mp starts).1
      · rw [← List.reverse_reverse piece, two] at starts
        obtain ⟨rfl, -⟩ := List.cons_prefix_cons.mp starts
        exact absurd firstSmall.1 (by decide)
      · obtain ⟨head, piece, rfl⟩ := List.exists_cons_of_ne_nil (by simpa using some)
        obtain ⟨rfl, -⟩ := List.cons_prefix_cons.mp starts
        have := foreign first (by simp)
        omega

/-- The lower case of a space is a space, and of nothing else. -/
theorem Lowered.space {piece : List Char} (lowered : Lowered char piece) :
    piece ≠ [] ∧ ∀ lowered ∈ piece, isWhitespace lowered = isWhitespace char := by
  cases lowered with
  | ascii =>
      refine ⟨List.cons_ne_nil _ _, fun lowered member => ?_⟩
      rw [List.mem_singleton.mp member, isWhitespace_toLower]
  | kelvin =>
      refine ⟨List.cons_ne_nil _ _, fun lowered member => ?_⟩
      rw [List.mem_singleton.mp member]
      decide
  | dotted =>
      refine ⟨List.cons_ne_nil _ _, fun lowered member => ?_⟩
      simp only [List.mem_cons, List.not_mem_nil, or_false] at member
      rcases member with rfl | rfl <;> decide
  | other large some foreign space => exact ⟨some, space⟩

theorem head?_flatten {pieces : List (List Char)}
    (lowered : List.Forall₂ (fun char piece => piece ≠ [] ∧
      ∀ lowered ∈ piece, isWhitespace lowered = isWhitespace char) text pieces) :
    pieces.flatten.head?.map isWhitespace = text.head?.map isWhitespace := by
  cases lowered with
  | nil => rfl
  | @cons char piece text pieces head _ =>
      obtain ⟨first, rest, rfl⟩ := List.exists_cons_of_ne_nil head.1
      simpa using head.2 first List.mem_cons_self

/-- A text begins with a space and ends with one where its lower case does. -/
theorem Lowercases.ends (lowercases : Lowercases toLowercase) (text : List Char) :
    (lower toLowercase text).head?.map isWhitespace = text.head?.map isWhitespace ∧
      (lower toLowercase text).getLast?.map isWhitespace = text.getLast?.map isWhitespace := by
  obtain ⟨pieces, lowered, whole⟩ := lowercases.pieces text
  rw [whole]
  constructor
  · exact head?_flatten (lowered.imp fun _ _ held => held.space)
  · rw [← List.head?_reverse, ← List.head?_reverse, List.reverse_flatten, ← List.map_reverse]
    apply head?_flatten
    rw [List.map_reverse, List.forall₂_reverse_iff, List.forall₂_map_right_iff]
    refine lowered.imp fun char piece held => ?_
    simpa using held.space

theorem trim_eq_self_iff : trim text = text ↔
    text.head?.map isWhitespace ≠ some true ∧ text.getLast?.map isWhitespace ≠ some true := by
  constructor
  · intro same
    constructor
    · intro first
      obtain ⟨char, head, space⟩ := Option.map_eq_some_iff.mp first
      obtain ⟨rest, rfl⟩ := List.head?_eq_some_iff.mp head
      have shorter : (trim (char :: rest)).length ≤ rest.length := by
        rw [trim, List.dropWhile_cons_of_pos space, List.length_reverse]
        refine Nat.le_trans (List.dropWhile_sublist _).length_le ?_
        rw [List.length_reverse]
        exact (List.dropWhile_sublist _).length_le
      rw [same, List.length_cons] at shorter
      omega
    · intro ends
      obtain ⟨char, last, space⟩ := Option.map_eq_some_iff.mp ends
      exact getLast?_trim (same.symm ▸ last) space
  · rintro ⟨first, last⟩
    exact trim_eq_of_ends (fun char head space => first (by rw [head, Option.map_some, space]))
      fun char ends space => last (by rw [ends, Option.map_some, space])

theorem Lowercases.trim_iff (lowercases : Lowercases toLowercase) :
    trim (lower toLowercase text) = lower toLowercase text ↔ trim text = text := by
  rw [trim_eq_self_iff, trim_eq_self_iff, (lowercases.ends text).1, (lowercases.ends text).2]

end Lower

theorem lowercases_ascii : Lowercases fun text => String.ofList (toAsciiLowercase text.toList) where
  pieces text := by
    refine ⟨text.map fun char => [char.toLower], ?_, ?_⟩
    · rw [List.forall₂_map_right_iff, List.forall₂_same]
      intro char _
      by_cases small : char.toNat < 128
      · exact .ascii small
      · have large := Nat.le_of_not_lt small
        rw [toLower_eq_self_of_large large]
        exact .other large (List.cons_ne_nil _ _) (by simpa using large) (by simp)
    · rw [← List.flatMap_def, ← List.map_eq_flatMap, lower, String.toList_ofList,
        String.toList_ofList, toAsciiLowercase]
  slash front back := by simp [lower, toAsciiLowercase]
  settled {text} made := by
    simp only [lower, String.toList_ofList]
    rw [toAsciiLowercase_eq_self_iff]
    intro char member
    obtain ⟨source, inside⟩ := made char member
    simp only [lower, String.toList_ofList, toAsciiLowercase, List.mem_map] at inside
    obtain ⟨other, -, rfl⟩ := inside
    cases upper : other.isUpper with
    | false => rw [toLower_eq_self_iff.mpr upper, upper]
    | true => exact toLower_eq_self_iff.mp (toLower_toLower other)

end Text
end Fghj
