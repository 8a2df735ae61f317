import Mathlib.Data.List.DropRight

/-!
# Words of a text

The words of a text are its longest runs of word symbols. Whoever keeps the word symbols and
writes one separator for every run of other symbols keeps the words and nothing else of the text:
two texts are flattened alike exactly when they have the same words.
-/

namespace Fghj
namespace Words

variable {α : Type} (inWord : α → Bool)

/-- The longest runs of word symbols, in order. -/
def words (text : List α) : List (List α) :=
  (text.splitOnP fun symbol => !inWord symbol).filter fun word => !word.isEmpty

/-- Words put side by side, with a separator between two of them. -/
def joined (separator : α) (parts : List (List α)) : List α := [separator].intercalate parts

/-- A symbol at the end of a flattened text: a run of other symbols leaves one separator. -/
def push [DecidableEq α] (separator : α) (text : List α) (symbol : α) : List α :=
  if inWord symbol then text ++ [symbol]
  else if text.getLast? = some separator then text
  else text ++ [separator]

/-- A text without the separators at either end. -/
def trimmed [DecidableEq α] (separator : α) (text : List α) : List α :=
  (text.dropWhile (· == separator)).rdropWhile (· == separator)

/-- What flattening leaves of a text that follows a separator, if `closed`, or a word symbol. -/
def collapse (separator : α) : Bool → List α → List α
  | _, [] => []
  | closed, symbol :: text =>
      if inWord symbol then symbol :: collapse separator false text
      else if closed then collapse separator true text
      else separator :: collapse separator true text

section Words

variable {inWord}

theorem ne_nil_of_mem_words {text word : List α} (member : word ∈ words inWord text) :
    word ≠ [] := by
  have kept := (List.mem_filter.mp member).2
  simpa using kept

theorem words_append_cons (front back : List α) {symbol : α} (outside : inWord symbol = false) :
    words inWord (front ++ symbol :: back) = words inWord front ++ words inWord back := by
  rw [words, List.splitOnP_append_cons _ _ (by simpa using outside), List.filter_append]
  rfl

theorem words_cons_of_outside (text : List α) {symbol : α} (outside : inWord symbol = false) :
    words inWord (symbol :: text) = words inWord text :=
  words_append_cons [] text outside

theorem words_of_inside {text : List α} (inside : ∀ symbol ∈ text, inWord symbol)
    (nonempty : text ≠ []) : words inWord text = [text] := by
  have single : (text.splitOnP fun symbol => !inWord symbol) = [text] :=
    List.splitOnP_eq_singleton fun symbol member => by simpa using inside symbol member
  simp [words, single, nonempty]

/-- Every symbol of a word is a word symbol of the text. -/
theorem mem_of_mem_words {text word : List α} (member : word ∈ words inWord text) :
    ∀ symbol ∈ word, inWord symbol ∧ symbol ∈ text := by
  have parts : ∀ part ∈ text.splitOnP (fun symbol => !inWord symbol), ∀ symbol ∈ part,
      inWord symbol ∧ symbol ∈ text := by
    clear member word
    induction text with
    | nil => simp
    | cons first text ih =>
        rw [List.splitOnP_cons_eq_if_modifyHead]
        obtain ⟨head, tail, split⟩ :=
          List.exists_cons_of_ne_nil (List.splitOnP_ne_nil (fun symbol => !inWord symbol) text)
        rw [split] at ih ⊢
        by_cases inside : inWord first
        · simp only [inside, Bool.not_true, Bool.false_eq_true, if_false, List.modifyHead_cons]
          grind
        · simp only [inside, Bool.not_false, if_true]
          grind
  exact parts word (List.mem_of_mem_filter member)

theorem inWord_of_mem_words {text word : List α} (member : word ∈ words inWord text) :
    ∀ symbol ∈ word, inWord symbol :=
  fun symbol inside => (mem_of_mem_words member symbol inside).1

/-- What holds of the separator and of all parts holds of all that is put together from them. -/
theorem forall_mem_intercalate {holds : α → Prop} {separator : List α}
    (between : ∀ symbol ∈ separator, holds symbol) {parts : List (List α)}
    (inside : ∀ part ∈ parts, ∀ symbol ∈ part, holds symbol) :
    ∀ symbol ∈ separator.intercalate parts, holds symbol := by
  induction parts with
  | nil => exact fun symbol member => absurd member List.not_mem_nil
  | cons part parts ih =>
      obtain ⟨first, later⟩ := List.forall_mem_cons.mp inside
      cases parts with
      | nil => simpa using first
      | cons next parts =>
          rw [List.intercalate_cons_cons]
          exact List.forall_mem_append.mpr
            ⟨List.forall_mem_append.mpr ⟨first, between⟩, ih later⟩

theorem mem_joined {separator symbol : α} {parts : List (List α)}
    (member : symbol ∈ joined separator parts) :
    symbol = separator ∨ ∃ part ∈ parts, symbol ∈ part := by
  have each : ∀ other ∈ [separator].intercalate parts,
      other = separator ∨ ∃ part ∈ parts, other ∈ part :=
    forall_mem_intercalate (fun other own => .inl (List.mem_singleton.mp own))
      fun part listed other inside => .inr ⟨part, listed, inside⟩
  exact each symbol member

end Words

section Flatten

variable {inWord} {separator : α}

theorem words_joined (outside : inWord separator = false) {parts : List (List α)}
    (nonempty : ∀ part ∈ parts, part ≠ [])
    (inside : ∀ part ∈ parts, ∀ symbol ∈ part, inWord symbol) :
    words inWord (joined separator parts) = parts := by
  induction parts with
  | nil => rfl
  | cons part parts ih =>
      rw [List.forall_mem_cons] at nonempty inside
      have first := words_of_inside inside.1 nonempty.1
      cases parts with
      | nil => simpa [joined] using first
      | cons next parts =>
          have rest := ih nonempty.2 inside.2
          rw [joined, List.intercalate_cons_cons, List.append_assoc, List.singleton_append,
            words_append_cons _ _ outside, first]
          exact congrArg (part :: ·) rest

theorem words_joined_words (outside : inWord separator = false) (text : List α) :
    words inWord (joined separator (words inWord text)) = words inWord text :=
  words_joined outside (fun _ => ne_nil_of_mem_words) (fun _ => inWord_of_mem_words)

/-- Joined words can be told apart. -/
theorem joined_words_inj (outside : inWord separator = false) {text other : List α} :
    joined separator (words inWord text) = joined separator (words inWord other) ↔
      words inWord text = words inWord other := by
  constructor
  · intro same
    rw [← words_joined_words outside text, same, words_joined_words outside other]
  · intro same
    rw [same]

theorem rdropWhile_append (drop : α → Bool) (front back : List α) :
    (front ++ back).rdropWhile drop =
      if back.rdropWhile drop = [] then front.rdropWhile drop
      else front ++ back.rdropWhile drop := by
  simp only [List.rdropWhile, List.reverse_append, List.dropWhile_append, List.isEmpty_iff]
  by_cases gone : back.reverse.dropWhile drop = []
  · simp [gone]
  · simp [gone]

variable [DecidableEq α]

theorem foldl_push (outside : inWord separator = false) (text label : List α) :
    text.foldl (push inWord separator) label =
      label ++ collapse inWord separator (label.getLast? = some separator) text := by
  induction text generalizing label with
  | nil => simp [collapse]
  | cons symbol text ih =>
      rw [List.foldl_cons, ih]
      by_cases inside : inWord symbol
      · have different : symbol ≠ separator := by
          rintro rfl
          rw [outside] at inside
          cases inside
        simp [push, collapse, inside, different]
      · by_cases closed : label.getLast? = some separator
        · simp [push, collapse, inside, closed]
        · simp [push, collapse, inside, closed]

theorem rdropWhile_inside (outside : inWord separator = false) {text : List α}
    (inside : ∀ symbol ∈ text, inWord symbol) :
    text.rdropWhile (· == separator) = text := by
  rw [List.rdropWhile_eq_self_iff]
  intro nonempty last
  have word := inside _ (List.getLast_mem nonempty)
  rw [beq_iff_eq.mp last, outside] at word
  cases word

/-- Flattening leaves the words, whether it comes out of a separator or out of a word. -/
theorem rdropWhile_collapse (outside : inWord separator = false) (text : List α) :
    (collapse inWord separator true text).rdropWhile (· == separator) =
        joined separator (words inWord text) ∧
      ∀ word, word ≠ [] → (∀ symbol ∈ word, inWord symbol) →
        (word ++ collapse inWord separator false text).rdropWhile (· == separator) =
          joined separator (words inWord (word ++ text)) := by
  induction text with
  | nil =>
      refine ⟨rfl, fun word nonempty inside => ?_⟩
      rw [List.append_nil, words_of_inside inside nonempty]
      simpa [collapse, joined] using rdropWhile_inside outside inside
  | cons symbol text ih =>
      obtain ⟨afterSeparator, afterWord⟩ := ih
      by_cases inner : inWord symbol
      · simp only [collapse, inner]
        have single : ∀ other ∈ [symbol], inWord other := by simpa using inner
        refine ⟨afterWord [symbol] (by simp) single, fun word nonempty inside => ?_⟩
        have longer := afterWord (word ++ [symbol]) (by simp)
          (List.forall_mem_append.mpr ⟨inside, single⟩)
        simpa using longer
      · have outer : inWord symbol = false := by simpa using inner
        simp only [collapse, outer]
        refine ⟨by simpa [words_cons_of_outside text outer] using afterSeparator,
          fun word nonempty inside => ?_⟩
        rw [words_append_cons word text outer, words_of_inside inside nonempty]
        have rest := rdropWhile_append (· == separator) [separator]
          (collapse inWord separator true text)
        rw [afterSeparator] at rest
        by_cases bare : words inWord text = []
        · have gone : (separator :: collapse inWord separator true text).rdropWhile
              (· == separator) = [] := by
            rw [if_pos (by rw [bare]; rfl)] at rest
            exact rest.trans (by simp [List.rdropWhile_singleton])
          simp only [Bool.false_eq_true, if_false, rdropWhile_append, gone, if_pos]
          simpa [bare, joined] using rdropWhile_inside outside inside
        · have kept : joined separator (words inWord text) ≠ [] := by
            intro empty
            have back := words_joined_words outside text
            rw [empty] at back
            exact bare back.symm
          rw [if_neg kept] at rest
          have spaced : (separator :: collapse inWord separator true text).rdropWhile
              (· == separator) = separator :: joined separator (words inWord text) := rest
          simp only [Bool.false_eq_true, if_false, rdropWhile_append, spaced]
          simp [joined, List.intercalate_cons_of_ne_nil bare]

theorem dropWhile_collapse (outside : inWord separator = false) (closed : Bool) (text : List α) :
    (collapse inWord separator closed text).dropWhile (· == separator) =
      collapse inWord separator true text := by
  induction text generalizing closed with
  | nil => rfl
  | cons symbol text ih =>
      by_cases inner : inWord symbol
      · have different : symbol ≠ separator := by
          rintro rfl
          rw [outside] at inner
          cases inner
        simp [collapse, inner, different]
      · cases closed with
        | true => simpa [collapse, inner] using ih true
        | false => simpa [collapse, inner] using ih true

/-- A flattened and trimmed text is its words, joined. -/
theorem trimmed_foldl_push (outside : inWord separator = false) (text : List α) :
    trimmed separator (text.foldl (push inWord separator) []) =
      joined separator (words inWord text) := by
  rw [foldl_push outside, List.nil_append, trimmed, dropWhile_collapse outside]
  exact (rdropWhile_collapse outside text).1

end Flatten

/-- The parts of one text are the last parts of another exactly if the other is it, or ends with it
behind a separator. -/
theorem splitOn_suffix_iff [DecidableEq α] {separator : α} {back text : List α} :
    back.splitOn separator <:+ text.splitOn separator ↔
      text = back ∨ separator :: back <:+ text := by
  have joins (front : List (List α)) :
      [separator].intercalate (front ++ back.splitOn separator) = back ∨
        separator :: back <:+ [separator].intercalate (front ++ back.splitOn separator) := by
    induction front with
    | nil => exact .inl (List.intercalate_splitOn separator)
    | cons part front ih =>
        rw [List.cons_append, List.intercalate_cons_of_ne_nil (by simp)]
        rcases ih with same | behind
        · rw [same]
          exact .inr ⟨part, by simp⟩
        · exact .inr (behind.trans (List.suffix_append ..))
  constructor
  · rintro ⟨front, split⟩
    have whole := joins front
    rwa [split, List.intercalate_splitOn] at whole
  · rintro (rfl | ⟨front, rfl⟩)
    · exact List.suffix_rfl
    · rw [List.splitOn_append_cons_self]
      exact List.suffix_append ..

end Words
end Fghj
