import Mathlib.Algebra.Ring.Int.Defs
import Mathlib.Data.List.Basic

/-!
# Text as lists of characters

Splitting, trimming and reading numbers, the way the usual string functions do it. A text that was
put together from a front, a separator and a back splits into them again, and a number that was
printed is read back.
-/

namespace Fghj
namespace Text

/-- A space of any kind, as Unicode has it. -/
def isWhitespace (char : Char) : Bool :=
  let code := char.toNat
  (9 ≤ code && code ≤ 13) || code == 32 || code == 0x85 || code == 0xA0 || code == 0x1680 ||
    (0x2000 ≤ code && code ≤ 0x200A) || code == 0x2028 || code == 0x2029 || code == 0x202F ||
    code == 0x205F || code == 0x3000

/-- The text without spaces at either end. -/
def trim (text : List Char) : List Char :=
  ((text.dropWhile isWhitespace).reverse.dropWhile isWhitespace).reverse

/-- What follows the pattern at the start of the text, if it starts with it. -/
def stripPrefix (pattern text : List Char) : Option (List Char) :=
  if pattern.isPrefixOf text then some (text.drop pattern.length) else none

/-- What precedes the pattern at the end of the text, if it ends with it. -/
def stripSuffix (pattern text : List Char) : Option (List Char) :=
  (stripPrefix pattern.reverse text.reverse).map List.reverse

@[simp]
theorem stripPrefix_append (pattern text : List Char) :
    stripPrefix pattern (pattern ++ text) = some text := by
  rw [stripPrefix, if_pos (List.isPrefixOf_iff_prefix.mpr (List.prefix_append pattern text)),
    List.drop_left]

@[simp]
theorem stripSuffix_append (text pattern : List Char) :
    stripSuffix pattern (text ++ pattern) = some text := by
  rw [stripSuffix, List.reverse_append, stripPrefix_append, Option.map_some, List.reverse_reverse]

/-- The text without the patterns at its start, at most `fuel` of them. -/
def trimStartMatches (pattern : List Char) : Nat → List Char → List Char
  | 0, text => text
  | fuel + 1, text =>
      match stripPrefix pattern text with
      | some rest => trimStartMatches pattern fuel rest
      | none => text

/-- The text without the patterns at its end. -/
def trimEndMatches (pattern text : List Char) : List Char :=
  (trimStartMatches pattern.reverse text.length text.reverse).reverse

variable {text : List Char} {char : Char}

theorem mem_of_mem_trimStartMatches {pattern : List Char} {fuel : Nat}
    (member : char ∈ trimStartMatches pattern fuel text) : char ∈ text := by
  induction fuel generalizing text with
  | zero => exact member
  | succ fuel ih =>
      rw [trimStartMatches] at member
      split at member
      · rename_i rest stripped
        unfold stripPrefix at stripped
        split at stripped
        · cases stripped
          exact List.mem_of_mem_drop (ih member)
        · cases stripped
      · exact member

variable {pattern : List Char}

theorem mem_of_mem_trimEndMatches (member : char ∈ trimEndMatches pattern text) : char ∈ text :=
  List.mem_reverse.mp (mem_of_mem_trimStartMatches (List.mem_reverse.mp member))

theorem prefix_of_stripPrefix {pattern text rest : List Char}
    (stripped : stripPrefix pattern text = some rest) : text = pattern ++ rest := by
  unfold stripPrefix at stripped
  split at stripped
  · rename_i starts
    obtain ⟨rest, rfl⟩ := List.isPrefixOf_iff_prefix.mp starts
    rw [List.drop_left] at stripped
    rw [Option.some.inj stripped]
  · cases stripped

theorem stripPrefix_eq_none (other : ¬pattern <+: text) : stripPrefix pattern text = none := by
  rw [stripPrefix, if_neg (by rwa [List.isPrefixOf_iff_prefix])]

theorem trimStartMatches_replicate {pattern text : List Char} (done : ¬pattern <+: text) :
    ∀ (count fuel : Nat), count ≤ fuel →
      trimStartMatches pattern fuel ((List.replicate count pattern).flatten ++ text) = text
  | 0, 0, _ => rfl
  | 0, fuel + 1, _ => by
      rw [List.replicate_zero, List.flatten_nil, List.nil_append, trimStartMatches,
        stripPrefix_eq_none done]
  | count + 1, fuel + 1, enough => by
      rw [List.replicate_succ, List.flatten_cons, List.append_assoc, trimStartMatches,
        stripPrefix_append]
      exact trimStartMatches_replicate done count fuel (Nat.le_of_succ_le_succ enough)

theorem trimStartMatches_spec {pattern : List Char} (solid : pattern ≠ []) {fuel : Nat}
    (enough : text.length ≤ fuel) :
    (∃ count, text = (List.replicate count pattern).flatten ++ trimStartMatches pattern fuel text) ∧
      ¬pattern <+: trimStartMatches pattern fuel text := by
  induction fuel generalizing text with
  | zero =>
      obtain rfl := List.eq_nil_of_length_eq_zero (Nat.le_zero.mp enough)
      exact ⟨⟨0, rfl⟩, by rwa [trimStartMatches, List.prefix_nil]⟩
  | succ fuel ih =>
      rw [trimStartMatches]
      split
      · rename_i rest stripped
        obtain rfl := prefix_of_stripPrefix stripped
        have shorter : rest.length ≤ fuel := by
          have positive := List.length_pos_of_ne_nil solid
          rw [List.length_append] at enough
          omega
        obtain ⟨⟨count, whole⟩, done⟩ := ih shorter
        refine ⟨⟨count + 1, ?_⟩, done⟩
        rw [List.replicate_succ, List.flatten_cons, List.append_assoc, ← whole]
      · rename_i none
        refine ⟨⟨0, rfl⟩, ?_⟩
        rintro ⟨rest, rfl⟩
        rw [stripPrefix_append] at none
        cases none

/-- Copies of the pattern at the end of a text that does not end with it are all that is trimmed. -/
theorem trimEndMatches_replicate (solid : pattern ≠ []) (done : ¬pattern <:+ text) (count : Nat) :
    trimEndMatches pattern (text ++ (List.replicate count pattern).flatten) = text := by
  have turned : (text ++ (List.replicate count pattern).flatten).reverse =
      (List.replicate count pattern.reverse).flatten ++ text.reverse := by
    simp [List.reverse_flatten]
  have long : count ≤ (text ++ (List.replicate count pattern).flatten).length := by
    have positive := List.length_pos_of_ne_nil solid
    rw [List.length_append, List.length_flatten, List.map_replicate, List.sum_replicate_nat]
    have := Nat.le_mul_of_pos_right count positive
    omega
  rw [trimEndMatches, turned, trimStartMatches_replicate (by rwa [List.reverse_prefix]) _ _ long,
    List.reverse_reverse]

theorem trimEndMatches_eq_self (solid : pattern ≠ []) (done : ¬pattern <:+ text) :
    trimEndMatches pattern text = text := by
  simpa using trimEndMatches_replicate solid done 0

theorem trimEndMatches_spec {pattern : List Char} (solid : pattern ≠ []) (text : List Char) :
    (∃ count, text = trimEndMatches pattern text ++ (List.replicate count pattern).flatten) ∧
      ¬pattern <:+ trimEndMatches pattern text := by
  have turned_solid : pattern.reverse ≠ [] := by simpa using solid
  have enough : text.reverse.length ≤ text.length := by rw [List.length_reverse]
  obtain ⟨⟨count, whole⟩, done⟩ := trimStartMatches_spec turned_solid enough
  refine ⟨⟨count, ?_⟩, ?_⟩
  · have turned := congrArg List.reverse whole
    simpa [trimEndMatches, List.reverse_flatten] using turned
  · rwa [trimEndMatches, ← List.reverse_prefix, List.reverse_reverse]

theorem count_trimEndMatches (solid : pattern ≠ []) (absent : char ∉ pattern) :
    (trimEndMatches pattern text).count char = text.count char := by
  obtain ⟨⟨count, whole⟩, -⟩ := trimEndMatches_spec solid text
  conv_rhs => rw [whole]
  have none : (List.replicate count pattern).flatten.count char = 0 := by
    rw [List.count_eq_zero]
    intro inside
    obtain ⟨part, copied, member⟩ := List.mem_flatten.mp inside
    exact absent (List.eq_of_mem_replicate copied ▸ member)
  rw [List.count_append, none, Nat.add_zero]

/-- What stands before and after the first occurrence of a character. -/
def splitOnce (separator : Char) : List Char → Option (List Char × List Char)
  | [] => none
  | char :: rest =>
      if char = separator then some ([], rest)
      else (splitOnce separator rest).map fun found => (char :: found.1, found.2)

variable {separator : Char}

theorem splitOnce_append {front : List Char} (absent : separator ∉ front) (back : List Char) :
    splitOnce separator (front ++ separator :: back) = some (front, back) := by
  induction front with
  | nil => simp [splitOnce]
  | cons char front ih =>
      rw [List.mem_cons, not_or] at absent
      simp [splitOnce, Ne.symm absent.1, ih absent.2]

theorem splitOnce_absent (absent : separator ∉ text) : splitOnce separator text = none := by
  induction text with
  | nil => rfl
  | cons char text ih =>
      rw [List.mem_cons, not_or] at absent
      simp [splitOnce, Ne.symm absent.1, ih absent.2]

/-- Texts that are put together around a first separator have the same parts. -/
theorem append_separator_inj {front other back rest : List Char} (absent : separator ∉ front)
    (otherAbsent : separator ∉ other) :
    front ++ separator :: back = other ++ separator :: rest ↔ front = other ∧ back = rest := by
  refine ⟨fun same => ?_, fun both => by rw [both.1, both.2]⟩
  have split := congrArg (splitOnce separator) same
  rw [splitOnce_append absent, splitOnce_append otherAbsent] at split
  simpa using split

/-- What stands before and after the last occurrence of a character. -/
def rsplitOnce (separator : Char) (text : List Char) : Option (List Char × List Char) :=
  (splitOnce separator text.reverse).map fun found => (found.2.reverse, found.1.reverse)

variable {front back : List Char}

/-- What is split at a character was put together from its parts. -/
theorem eq_of_splitOnce (split : splitOnce separator text = some (front, back)) :
    text = front ++ separator :: back := by
  induction text generalizing front with
  | nil => cases split
  | cons char text ih =>
      rw [splitOnce] at split
      split at split
      · rename_i same
        cases split
        rw [same, List.nil_append]
      · obtain ⟨⟨rest, after⟩, found, pair⟩ := Option.map_eq_some_iff.mp split
        cases pair
        rw [ih found, List.cons_append]

theorem infix_of_splitOnce (split : splitOnce separator text = some (front, back)) :
    back <:+: text :=
  ⟨front ++ [separator], [], by rw [eq_of_splitOnce split]; simp⟩

theorem not_mem_of_splitOnce (split : splitOnce separator text = some (front, back)) :
    separator ∉ front := by
  induction text generalizing front with
  | nil => cases split
  | cons char text ih =>
      rw [splitOnce] at split
      split at split
      · cases split
        exact List.not_mem_nil
      · rename_i other
        obtain ⟨⟨rest, after⟩, found, pair⟩ := Option.map_eq_some_iff.mp split
        cases pair
        exact List.not_mem_cons_of_ne_of_not_mem (Ne.symm other) (ih found)

theorem not_mem_of_splitOnce_eq_none (none : splitOnce separator text = none) :
    separator ∉ text := by
  intro member
  obtain ⟨front, back, rfl, absent⟩ := List.eq_append_cons_of_mem member
  rw [splitOnce_append absent] at none
  cases none

theorem eq_of_rsplitOnce (split : rsplitOnce separator text = some (front, back)) :
    text = front ++ separator :: back := by
  obtain ⟨⟨tail, head⟩, found, pair⟩ := Option.map_eq_some_iff.mp split
  cases pair
  have whole := eq_of_splitOnce found
  rw [← List.reverse_reverse text, whole, List.reverse_append, List.reverse_cons,
    List.append_assoc, List.singleton_append]

/-- The text with its ASCII letters in lower case. -/
def toAsciiLowercase (text : List Char) : List Char := text.map Char.toLower

theorem toLower_eq_self_iff : char.toLower = char ↔ char.isUpper = false := by
  delta Char.toLower Char.isUpper
  constructor
  · intro same
    grind
  · intro lower
    grind

theorem isLower_toLower (upper : char.isUpper) : char.toLower.isLower := by
  have letter : 'A'.val ≤ char.val ∧ char.val ≤ 'Z'.val := by
    delta Char.isUpper at upper
    simpa using upper
  obtain ⟨least, most⟩ := letter
  delta Char.toLower Char.isLower
  simp only [ge_iff_le, least, most, and_self, dif_pos,
    Bool.and_eq_true, decide_eq_true_eq]
  rw [UInt32.le_iff_toNat_le] at least most
  simp only [UInt32.le_iff_toNat_le, UInt32.toNat_add]
  simp at least most ⊢
  omega

theorem toAsciiLowercase_eq_self_iff :
    toAsciiLowercase text = text ↔ ∀ char ∈ text, char.isUpper = false := by
  induction text with
  | nil => simp [toAsciiLowercase]
  | cons char text ih =>
      rw [toAsciiLowercase, List.map_cons, List.cons.injEq, ← toAsciiLowercase, ih,
        toLower_eq_self_iff, List.forall_mem_cons]

/-- The number some digits and a sign stand for, if it fits into 64 bits. -/
def readDigits (negative : Bool) (digits : List Char) : Option Int :=
  if digits.isEmpty || !digits.all Char.isDigit then none
  else
    let magnitude : Int := Nat.ofDigitChars 10 digits 0
    let value := if negative then -magnitude else magnitude
    if -2 ^ 63 ≤ value ∧ value < 2 ^ 63 then some value else none

/-- A whole number of 64 bits, with a sign or without. -/
def parseI64 : List Char → Option Int
  | '-' :: digits => readDigits true digits
  | '+' :: digits => readDigits false digits
  | digits => readDigits false digits

/-- A whole number of 16 bits, with a plus sign or without. -/
def parseU16 (text : List Char) : Option UInt16 :=
  let digits :=
    match text with
    | '+' :: digits => digits
    | digits => digits
  ((readDigits false digits).filter fun value => value < 2 ^ 16).map fun value =>
    UInt16.ofNat value.toNat

theorem isDigit_of_mem_toDigits {n : Nat} (member : char ∈ Nat.toDigits 10 n) : char.isDigit :=
  Nat.isDigit_of_mem_toDigits (by decide) (by decide) member

theorem readDigits_toDigits {negative : Bool} {n : Nat} {value : Int}
    (same : value = if negative then -(n : Int) else n)
    (fits : -2 ^ 63 ≤ value ∧ value < 2 ^ 63) :
    readDigits negative (Nat.toDigits 10 n) = some value := by
  have digits : ((Nat.toDigits 10 n).isEmpty || !(Nat.toDigits 10 n).all Char.isDigit) = false := by
    rw [Bool.or_eq_false_iff, Bool.not_eq_false', List.all_eq_true]
    exact ⟨by simp [List.isEmpty_eq_false_iff, Nat.toDigits_ne_nil],
      fun char member => isDigit_of_mem_toDigits member⟩
  simp only [readDigits, digits, Nat.ofDigitChars_ten_toDigits, ← same]
  rw [if_neg (by decide), if_pos fits]

/-- The characters of a printed number: its sign and its digits. -/
theorem toList_repr_int (value : Int) :
    value.repr.toList = (if value < 0 then ['-'] else []) ++ Nat.toDigits 10 value.natAbs := by
  cases value with
  | ofNat n => simp [Int.repr]
  | negSucc n => simp [Int.repr]

theorem mem_toList_repr_int {value : Int} (member : char ∈ value.repr.toList) :
    char = '-' ∨ char.isDigit := by
  rw [toList_repr_int, List.mem_append] at member
  rcases member with sign | digit
  · split at sign
    · exact .inl (List.mem_singleton.mp sign)
    · cases sign
  · exact .inr (isDigit_of_mem_toDigits digit)

theorem parseI64_repr {value : Int} (fits : -2 ^ 63 ≤ value ∧ value < 2 ^ 63) :
    parseI64 value.repr.toList = some value := by
  rw [toList_repr_int]
  by_cases negative : value < 0
  · rw [if_pos negative]
    apply readDigits_toDigits _ fits
    rw [if_pos rfl]
    omega
  · rw [if_neg negative, List.nil_append]
    -- the first digit is no sign
    have unsigned : parseI64 (Nat.toDigits 10 value.natAbs) =
        readDigits false (Nat.toDigits 10 value.natAbs) := by
      unfold parseI64
      split
      · rename_i digits shape
        have digit := isDigit_of_mem_toDigits (shape ▸ List.mem_cons_self :
          '-' ∈ Nat.toDigits 10 value.natAbs)
        cases digit
      · rename_i digits shape
        have digit := isDigit_of_mem_toDigits (shape ▸ List.mem_cons_self :
          '+' ∈ Nat.toDigits 10 value.natAbs)
        cases digit
      · rfl
    rw [unsigned]
    apply readDigits_toDigits _ fits
    rw [if_neg (by decide)]
    omega

theorem isDigit_of_mem_repr {n : Nat} (member : char ∈ n.repr.toList) : char.isDigit := by
  rw [Nat.toList_repr] at member
  exact isDigit_of_mem_toDigits member

/-- A printed number of 16 bits is read back as itself. -/
theorem parseU16_repr (number : UInt16) : parseU16 number.toNat.repr.toList = some number := by
  have small := number.toNat_lt
  rw [Nat.toList_repr]
  -- the first digit is no sign
  have unsigned : parseU16 (Nat.toDigits 10 number.toNat) =
      ((readDigits false (Nat.toDigits 10 number.toNat)).filter fun value => value < 2 ^ 16).map
        fun value => UInt16.ofNat value.toNat := by
    unfold parseU16
    split
    · rename_i digits shape
      have digit := isDigit_of_mem_toDigits (shape ▸ List.mem_cons_self :
        '+' ∈ Nat.toDigits 10 number.toNat)
      cases digit
    · rfl
  have value : readDigits false (Nat.toDigits 10 number.toNat) = some (number.toNat : Int) :=
    readDigits_toDigits (by simp) (by omega)
  rw [unsigned, value, Option.filter_some, if_pos (by simp; omega)]
  simp

/-- What is read as a number of 16 bits holds nothing but digits after its sign. -/
theorem isDigit_of_parseU16 {number : UInt16} (read : parseU16 text = some number) :
    ∀ char ∈ text, char = '+' ∨ char.isDigit := by
  have digits : ∀ {digits : List Char} {value : UInt16},
      ((readDigits false digits).filter fun value => value < 2 ^ 16).map
        (fun value => UInt16.ofNat value.toNat) = some value → ∀ char ∈ digits, char.isDigit := by
    intro digits value some char member
    by_contra other
    have bad : (digits.isEmpty || !digits.all Char.isDigit) = true := by
      rw [Bool.or_eq_true, Bool.not_eq_true']
      exact .inr (List.all_eq_false.mpr ⟨char, member, other⟩)
    rw [readDigits, if_pos bad] at some
    cases some
  unfold parseU16 at read
  split at read
  · rename_i rest
    intro char member
    rcases List.mem_cons.mp member with rfl | inside
    · exact .inl rfl
    · exact .inr (digits read char inside)
  · exact fun char member => .inr (digits read char member)

/-- A digit is no bracket and no space. -/
theorem solid_of_isDigit {char : Char} (digit : char.isDigit) :
    char ≠ ')' ∧ ¬isWhitespace char := by
  have range : 48 ≤ char.toNat ∧ char.toNat ≤ 57 := Char.isDigit_iff_toNat.mp digit
  constructor
  · rintro rfl
    cases digit
  · simp only [isWhitespace, Bool.or_eq_true, Bool.and_eq_true, decide_eq_true_eq, beq_iff_eq]
    omega

theorem dropWhile_eq_self (solid : ∀ char, text.head? = some char → ¬isWhitespace char) :
    text.dropWhile isWhitespace = text := by
  cases text with
  | nil => rfl
  | cons char text => rw [List.dropWhile_cons_of_neg (solid char rfl)]

/-- Text without a space at either end is left alone. -/
theorem trim_eq_of_ends (first : ∀ char, text.head? = some char → ¬isWhitespace char)
    (last : ∀ char, text.getLast? = some char → ¬isWhitespace char) : trim text = text := by
  have backwards : ∀ char, text.reverse.head? = some char → ¬isWhitespace char := by
    intro char found
    exact last char (by rwa [List.head?_reverse] at found)
  rw [trim, dropWhile_eq_self first, dropWhile_eq_self backwards, List.reverse_reverse]

theorem trim_eq_self (solid : ∀ char ∈ text, ¬isWhitespace char) : trim text = text :=
  trim_eq_of_ends (fun char found => solid char (List.mem_of_head? found))
    fun char found => solid char (List.mem_of_getLast? found)

theorem mem_of_mem_trim (member : char ∈ trim text) : char ∈ text := by
  rw [trim, List.mem_reverse] at member
  have inner := (List.dropWhile_sublist _).subset member
  exact (List.dropWhile_sublist _).subset (List.mem_reverse.mp inner)

/-- Trimmed text has no space at its end. -/
theorem getLast?_trim (last : (trim text).getLast? = some char) : ¬isWhitespace char := by
  rw [trim, List.getLast?_reverse] at last
  have kept := List.head?_dropWhile_not isWhitespace (text.dropWhile isWhitespace).reverse
  rw [last] at kept
  simpa using kept

theorem head?_trim (first : (trim text).head? = some char) : ¬isWhitespace char := by
  have outer : trim text <+: text.dropWhile isWhitespace := by
    rw [trim, ← List.reverse_suffix, List.reverse_reverse]
    exact List.dropWhile_suffix _
  have kept := List.head?_dropWhile_not isWhitespace text
  obtain ⟨rest, whole⟩ := outer
  have some : trim text ≠ [] := by
    intro nothing
    simp [nothing] at first
  rw [← whole, List.head?_append_of_ne_nil _ some, first] at kept
  simpa using kept

@[simp]
theorem trim_trim (text : List Char) : trim (trim text) = trim text :=
  trim_eq_of_ends (fun _ => head?_trim) fun _ => getLast?_trim

theorem trim_infix (text : List Char) : trim text <:+: text := by
  rw [trim, ← List.reverse_infix, List.reverse_reverse]
  refine (List.dropWhile_suffix _).isInfix.trans ?_
  rw [List.reverse_infix]
  exact (List.dropWhile_suffix _).isInfix

/-- Spaces at either end make no difference. -/
theorem trim_append_spaces {spaces : List Char} (blank : ∀ char ∈ spaces, isWhitespace char)
    (text : List Char) : trim (text ++ spaces) = trim text := by
  have gone : spaces.dropWhile isWhitespace = [] := by
    have nothing := @List.dropWhile_append_of_pos _ _ _ [] blank
    rwa [List.append_nil] at nothing
  rw [trim, trim, List.dropWhile_append]
  split
  · rename_i empty
    rw [List.isEmpty_iff.mp empty, gone]
  · rw [List.reverse_append, List.dropWhile_append_of_pos (by simpa using blank)]

theorem trim_spaces_append {spaces : List Char} (blank : ∀ char ∈ spaces, isWhitespace char)
    (text : List Char) : trim (spaces ++ text) = trim text := by
  rw [trim, List.dropWhile_append_of_pos blank, ← trim]

/-- Only spaces are trimmed. -/
theorem exists_trim (text : List Char) : ∃ before after : List Char,
    (∀ char ∈ before, isWhitespace char) ∧ (∀ char ∈ after, isWhitespace char) ∧
      text = before ++ trim text ++ after := by
  have blank (chars : List Char) : ∀ char ∈ chars.takeWhile isWhitespace, isWhitespace char :=
    List.all_eq_true.mp List.all_takeWhile
  refine ⟨text.takeWhile isWhitespace,
    ((text.dropWhile isWhitespace).reverse.takeWhile isWhitespace).reverse, blank text, ?_, ?_⟩
  · intro char member
    exact blank _ char (List.mem_reverse.mp member)
  · rw [trim, List.append_assoc, ← List.reverse_append, List.takeWhile_append_dropWhile,
      List.reverse_reverse, List.takeWhile_append_dropWhile]

theorem endsWith_iff (text pattern : String) :
    text.endsWith pattern ↔ pattern.toList <:+ text.toList := by
  rw [String.endsWith_eq_endsWith_toSlice, String.Slice.endsWith_string_iff]
  simp

/-! ## Lines -/

/-- A line without the carriage return at its end. -/
def stripReturn (line : List Char) : List Char :=
  if line.getLast? = some '\r' then line.dropLast else line

theorem trim_stripReturn (line : List Char) : trim (stripReturn line) = trim line := by
  rw [stripReturn]
  split
  · rename_i last
    obtain ⟨front, rfl⟩ := List.getLast?_eq_some_iff.mp last
    rw [List.dropLast_concat, trim_append_spaces (List.all_eq_true.mp (by decide))]
  · rfl

/-- What stands after the last newline, unless it is nothing. -/
def lastLine (text : List Char) : List (List Char) :=
  match (text.splitOn '\n').getLast? with
  | some (char :: rest) => [char :: rest]
  | _ => []

/-- The lines of a text; a newline ends a line, together with a carriage return before it. -/
def lines (text : List Char) : List (List Char) :=
  (text.splitOn '\n').dropLast.map stripReturn ++ lastLine text

/-- The lines of a text with everything but the newlines. -/
def rawLines (text : List Char) : List (List Char) := (text.splitOn '\n').dropLast ++ lastLine text

/-- The lines one after the other, each ended by a newline. -/
def unlines (lines : List (List Char)) : List Char := lines.flatMap (· ++ ['\n'])

theorem not_mem_of_mem_splitOn {text part : List Char} (member : part ∈ text.splitOn separator) :
    separator ∉ part := by
  induction text generalizing part with
  | nil => simp_all
  | cons char text ih =>
      rw [List.splitOn_cons_eq_if_modifyHead] at member
      split at member
      · rcases List.mem_cons.mp member with rfl | later
        · simp
        · exact ih later
      · rename_i other
        obtain ⟨head, tail, split⟩ := List.exists_cons_of_ne_nil
          (List.splitOn_ne_nil separator text)
        rw [split, List.modifyHead_cons, List.mem_cons] at member
        have different : separator ≠ char := fun same => other (by simp [same])
        rcases member with rfl | later
        · simpa [different] using ih (split ▸ List.mem_cons_self)
        · exact ih (split ▸ List.mem_cons_of_mem _ later)

theorem mem_of_mem_splitOn {separator char : Char} {text part : List Char}
    (member : part ∈ text.splitOn separator) (inside : char ∈ part) : char ∈ text := by
  induction text generalizing part with
  | nil => simp_all
  | cons first text ih =>
      rw [List.splitOn_cons_eq_if_modifyHead] at member
      split at member
      · rcases List.mem_cons.mp member with rfl | later
        · cases inside
        · exact List.mem_cons_of_mem _ (ih later inside)
      · obtain ⟨head, tail, split⟩ := List.exists_cons_of_ne_nil
          (List.splitOn_ne_nil separator text)
        rw [split, List.modifyHead_cons, List.mem_cons] at member
        rcases member with rfl | later
        · rcases List.mem_cons.mp inside with rfl | inside
          · exact List.mem_cons_self
          · exact List.mem_cons_of_mem _ (ih (split ▸ List.mem_cons_self) inside)
        · exact List.mem_cons_of_mem _ (ih (split ▸ List.mem_cons_of_mem _ later) inside)

theorem splitOn_front {front : List Char} (absent : separator ∉ front) (back : List Char) :
    ∃ rest parts, (front ++ back).splitOn separator = (front ++ rest) :: parts := by
  induction front with
  | nil =>
      obtain ⟨rest, parts, split⟩ := List.exists_cons_of_ne_nil (List.splitOn_ne_nil separator back)
      exact ⟨rest, parts, split⟩
  | cons char front ih =>
      rw [List.mem_cons, not_or] at absent
      obtain ⟨rest, parts, split⟩ := ih absent.2
      refine ⟨rest, parts, ?_⟩
      have other : ¬(char == separator) := by simpa using Ne.symm absent.1
      rw [List.cons_append, List.splitOn_cons_eq_if_modifyHead, if_neg other, split]
      rfl

/-- What is joined stands in the whole. -/
theorem infix_intercalate {parts : List (List Char)} {part : List Char} (member : part ∈ parts)
    (separator : List Char) : part <:+: separator.intercalate parts := by
  induction parts with
  | nil => cases member
  | cons first parts ih =>
      cases parts with
      | nil =>
          have alone : separator.intercalate [first] = part := by
            rw [List.intercalate_singleton, List.mem_singleton.mp member]
          exact alone ▸ List.infix_rfl
      | cons next parts =>
          rw [List.intercalate_cons_cons, List.append_assoc]
          rcases List.mem_cons.mp member with rfl | later
          · exact (List.prefix_append _ _).isInfix
          · exact (ih later).trans
              ((List.suffix_append _ _).isInfix.trans (List.suffix_append _ _).isInfix)

theorem infix_of_mem_splitOn {text part : List Char} (member : part ∈ text.splitOn separator) :
    part <:+: text := by
  have inside := infix_intercalate member [separator]
  rwa [List.intercalate_splitOn] at inside

theorem mem_splitOn_of_mem_lastLine {text line : List Char} (member : line ∈ lastLine text) :
    line ∈ text.splitOn '\n' := by
  unfold lastLine at member
  split at member
  · rename_i char rest last
    obtain rfl := List.mem_singleton.mp member
    exact List.mem_of_getLast? last
  · cases member

theorem infix_of_mem_lines {text line : List Char} (member : line ∈ lines text) :
    line <:+: text := by
  rcases List.mem_append.mp member with ended | last
  · obtain ⟨raw, split, rfl⟩ := List.mem_map.mp ended
    refine List.IsInfix.trans ?_ (infix_of_mem_splitOn ((List.dropLast_sublist _).subset split))
    rw [stripReturn]
    split_ifs
    · exact (List.dropLast_prefix _).isInfix
    · exact List.infix_rfl
  · exact infix_of_mem_splitOn (mem_splitOn_of_mem_lastLine last)

theorem newline_not_mem_rawLines {text line : List Char} (member : line ∈ rawLines text) :
    '\n' ∉ line := by
  rcases List.mem_append.mp member with ended | last
  · exact not_mem_of_mem_splitOn ((List.dropLast_sublist _).subset ended)
  · exact not_mem_of_mem_splitOn (mem_splitOn_of_mem_lastLine last)

theorem splitOn_unlines_append {texts : List (List Char)} (single : ∀ line ∈ texts, '\n' ∉ line)
    (rest : List Char) : (unlines texts ++ rest).splitOn '\n' = texts ++ rest.splitOn '\n' := by
  induction texts with
  | nil => rfl
  | cons line texts ih =>
      rw [List.forall_mem_cons] at single
      rw [unlines, List.flatMap_cons, List.append_assoc, List.append_assoc, List.singleton_append,
        List.splitOn_append_cons_self_of_not_mem single.1]
      exact congrArg (line :: ·) (ih single.2)

theorem splitOn_unlines {texts : List (List Char)} (single : ∀ line ∈ texts, '\n' ∉ line) :
    (unlines texts).splitOn '\n' = texts ++ [[]] := by
  simpa using splitOn_unlines_append single []

theorem lastLine_unlines {texts : List (List Char)} (single : ∀ line ∈ texts, '\n' ∉ line) :
    lastLine (unlines texts) = [] := by
  simp [lastLine, splitOn_unlines single]

/-- Lines that were written out are read back. -/
theorem rawLines_unlines {texts : List (List Char)} (single : ∀ line ∈ texts, '\n' ∉ line) :
    rawLines (unlines texts) = texts := by
  simp [rawLines, splitOn_unlines single, lastLine_unlines single]

/-- Lines that were written out and a last one that is not ended are read back. -/
theorem rawLines_unlines_append {texts : List (List Char)} (single : ∀ line ∈ texts, '\n' ∉ line)
    {rest : List Char} (last : '\n' ∉ rest) :
    rawLines (unlines texts ++ rest) = texts ++ if rest = [] then [] else [rest] := by
  have split : (unlines texts ++ rest).splitOn '\n' = texts ++ [rest] := by
    rw [splitOn_unlines_append single, List.splitOn_eq_singleton last]
  rw [rawLines, lastLine, split]
  cases rest <;> simp

/-- Every text consists of whole lines and a last one that is not ended. -/
theorem exists_unlines (text : List Char) :
    ∃ texts rest, (∀ line ∈ texts, '\n' ∉ line) ∧ '\n' ∉ rest ∧ text = unlines texts ++ rest := by
  induction text with
  | nil => exact ⟨[], [], by simp, by simp, rfl⟩
  | cons char text ih =>
      obtain ⟨texts, rest, single, last, rfl⟩ := ih
      by_cases newline : char = '\n'
      · refine ⟨[] :: texts, rest, ?_, last, by rw [newline]; rfl⟩
        exact List.forall_mem_cons.mpr ⟨List.not_mem_nil, single⟩
      · cases texts with
        | nil => exact ⟨[], char :: rest, by simp, by simp [last, Ne.symm newline], rfl⟩
        | cons line texts =>
            rw [List.forall_mem_cons] at single
            refine ⟨(char :: line) :: texts, rest, ?_, last, rfl⟩
            exact List.forall_mem_cons.mpr ⟨by simp [single.1, Ne.symm newline], single.2⟩

/-- The lines of a text hold every character of it but the newlines. -/
theorem count_rawLines (other : char ≠ '\n') (text : List Char) :
    (rawLines text).flatten.count char = text.count char := by
  obtain ⟨texts, rest, single, last, rfl⟩ := exists_unlines text
  have ended : texts.flatten.count char = (unlines texts).count char := by
    clear single
    induction texts with
    | nil => rfl
    | cons line texts ih =>
        rw [unlines, List.flatMap_cons, ← unlines, List.flatten_cons]
        simp [List.count_append, ih, Ne.symm other]
  rw [rawLines_unlines_append single last, List.flatten_append, List.count_append,
    List.count_append, ended]
  by_cases empty : rest = []
  · simp [empty]
  · simp [empty]

theorem lines_unlines {texts : List (List Char)} (single : ∀ line ∈ texts, '\n' ∉ line) :
    lines (unlines texts) = texts.map stripReturn := by
  simp [lines, splitOn_unlines single, lastLine_unlines single]

/-- Parts with separators between them are told apart. -/
theorem splitOn_flatMap {part : List Char} {parts : List (List Char)} (first : separator ∉ part)
    (single : ∀ other ∈ parts, separator ∉ other) :
    (part ++ parts.flatMap (separator :: ·)).splitOn separator = part :: parts := by
  induction parts generalizing part with
  | nil => simp [List.splitOn_eq_singleton first]
  | cons other parts ih =>
      obtain ⟨here, later⟩ := List.forall_mem_cons.mp single
      rw [List.flatMap_cons, List.cons_append, List.splitOn_append_cons_self_of_not_mem first,
        ih here later]

theorem lines_append_cons {line : List Char} (single : '\n' ∉ line) (text : List Char) :
    lines (line ++ '\n' :: text) = stripReturn line :: lines text := by
  have some := List.splitOn_ne_nil '\n' text
  simp only [lines, lastLine, List.splitOn_append_cons_self_of_not_mem single,
    List.dropLast_cons_of_ne_nil some, List.map_cons, List.cons_append,
    List.getLast?_cons_of_ne_nil some]

/-- Lines with line breaks between them are read back. -/
theorem lines_breaks {line : List Char} {others : List (List Char)}
    (clean : ∀ text ∈ line :: others, text ≠ [] ∧ '\r' ∉ text ∧ '\n' ∉ text) :
    lines (line ++ others.flatMap ("\r\n".toList ++ ·)) = line :: others := by
  induction others generalizing line with
  | nil =>
      obtain ⟨some, -, single⟩ := clean line List.mem_cons_self
      obtain ⟨char, text, rfl⟩ := List.exists_cons_of_ne_nil some
      simp [lines, lastLine, List.splitOn_eq_singleton single]
  | cons other others ih =>
      obtain ⟨⟨-, -, single⟩, later⟩ := List.forall_mem_cons.mp clean
      have whole : line ++ (other :: others).flatMap ("\r\n".toList ++ ·) =
          (line ++ ['\r']) ++ '\n' :: (other ++ others.flatMap ("\r\n".toList ++ ·)) := by
        simp
      rw [whole, lines_append_cons (by simp [single]), ih later]
      simp [stripReturn]

end Text
end Fghj
