import Mathlib.Data.List.Basic

/-!
# Decoding UTF-8

Bytes are decoded one after the other, with those of a character begun held back. What is no
character is replaced: a byte that can begin none, and every longest run that could have become one.
Text that was encoded is read back, and what is decoded in pieces is what is decoded in one exactly
if no piece goes on with what was begun before it.
-/

namespace Fghj
namespace Utf8

/-- `U+FFFD` -/
def replacement : Char := Char.ofNat 0xFFFD

def encode (text : List Char) : List UInt8 := text.flatMap String.utf8EncodeChar

theorem encode_append (front back : List Char) :
    encode (front ++ back) = encode front ++ encode back :=
  List.flatMap_append

/-- How many bytes follow the first of a character; none if it begins no longer one. -/
def following (first : UInt8) : Nat :=
  if 0xC2 ≤ first.toNat ∧ first.toNat ≤ 0xDF then 1
  else if 0xE0 ≤ first.toNat ∧ first.toNat ≤ 0xEF then 2
  else if 0xF0 ≤ first.toNat ∧ first.toNat ≤ 0xF4 then 3
  else 0

/-- The bytes that may follow what was held back. -/
def continues : List UInt8 → UInt8 → Bool
  | [], _ => false
  | [first], byte =>
      let low := if first.toNat = 0xE0 then 0xA0 else if first.toNat = 0xF0 then 0x90 else 0x80
      let high := if first.toNat = 0xED then 0x9F else if first.toNat = 0xF4 then 0x8F else 0xBF
      low ≤ byte.toNat && byte.toNat ≤ high
  | _, byte => 0x80 ≤ byte.toNat && byte.toNat ≤ 0xBF

/-- The character of the bytes of a whole sequence. -/
def value : List UInt8 → Char
  | [a, b] => .ofNat (a.toNat % 0x20 * 64 + b.toNat % 64)
  | [a, b, c] => .ofNat (a.toNat % 0x10 * 4096 + b.toNat % 64 * 64 + c.toNat % 64)
  | [a, b, c, d] =>
      .ofNat (a.toNat % 8 * 262144 + b.toNat % 64 * 4096 + c.toNat % 64 * 64 + d.toNat % 64)
  | _ => replacement

/-- A byte where no character is begun: what it yields and what is held back. -/
def fresh (byte : UInt8) : List Char × List UInt8 :=
  if byte.toNat < 0x80 then ([.ofNat byte.toNat], [])
  else if following byte = 0 then ([replacement], [])
  else ([], [byte])

/-- What bytes held back are replaced by when they turn out to be no character. -/
def lost (held : List UInt8) : List Char := if held.isEmpty then [] else [replacement]

/-- One byte more. -/
def feed (held : List UInt8) (byte : UInt8) : List Char × List UInt8 :=
  if continues held byte then
    if held.length = held.head?.elim 0 following then ([value (held ++ [byte])], [])
    else ([], held ++ [byte])
  else (lost held ++ (fresh byte).1, (fresh byte).2)

/-- The text of the bytes, with some held back from before. -/
def decodeFrom (held : List UInt8) : List UInt8 → List Char
  | [] => lost held
  | byte :: bytes => (feed held byte).1 ++ decodeFrom (feed held byte).2 bytes

/-- `String::from_utf8_lossy` -/
def fromUtf8Lossy (bytes : List UInt8) : List Char := decodeFrom [] bytes

theorem decodeFrom_cons (held : List UInt8) (byte : UInt8) (bytes : List UInt8) :
    decodeFrom held (byte :: bytes) = (feed held byte).1 ++ decodeFrom (feed held byte).2 bytes :=
  rfl

/-- What is decoded of some bytes before their end is known. -/
def yields (held : List UInt8) : List UInt8 → List Char
  | [] => []
  | byte :: bytes => (feed held byte).1 ++ yields (feed held byte).2 bytes

/-- The bytes held back after some more. -/
def heldAfter (held : List UInt8) : List UInt8 → List UInt8
  | [] => held
  | byte :: bytes => heldAfter (feed held byte).2 bytes

theorem yields_append (held front back : List UInt8) :
    yields held (front ++ back) = yields held front ++ yields (heldAfter held front) back := by
  induction front generalizing held with
  | nil => rfl
  | cons byte front ih => rw [List.cons_append, yields, ih, yields, heldAfter, List.append_assoc]

theorem heldAfter_append (held front back : List UInt8) :
    heldAfter held (front ++ back) = heldAfter (heldAfter held front) back := by
  induction front generalizing held with
  | nil => rfl
  | cons byte front ih => exact ih _

theorem decodeFrom_append (held front back : List UInt8) :
    decodeFrom held (front ++ back) =
      yields held front ++ decodeFrom (heldAfter held front) back := by
  induction front generalizing held with
  | nil => rfl
  | cons byte front ih =>
      rw [List.cons_append, decodeFrom_cons, ih, yields, heldAfter, List.append_assoc]

theorem decodeFrom_eq (held bytes : List UInt8) :
    decodeFrom held bytes = yields held bytes ++ lost (heldAfter held bytes) := by
  simpa [decodeFrom] using decodeFrom_append held bytes []

theorem feed_nil (byte : UInt8) : feed [] byte = fresh byte := by
  simp [feed, continues, lost]

variable {byte : UInt8}

theorem feed_more {held : List UInt8} (more : continues held byte)
    (unfinished : held.length ≠ held.head?.elim 0 following) :
    feed held byte = ([], held ++ [byte]) := by
  rw [feed, if_pos more, if_neg unfinished]

theorem feed_last {held : List UInt8} (more : continues held byte)
    (finished : held.length = held.head?.elim 0 following) :
    feed held byte = ([value (held ++ [byte])], []) := by
  rw [feed, if_pos more, if_pos finished]

theorem feed_first (high : 0x80 ≤ byte.toNat) (begins : following byte ≠ 0) :
    feed [] byte = ([], [byte]) := by
  rw [feed_nil, fresh, if_neg (by omega), if_neg begins]

theorem toNat_ofNat_of_lt {n : Nat} (small : n < 256) : (UInt8.ofNat n).toNat = n :=
  UInt8.toNat_ofNat_of_lt' small

theorem continues_second {first byte : UInt8}
    (low : (if first.toNat = 0xE0 then 0xA0 else if first.toNat = 0xF0 then 0x90 else 0x80) ≤
      byte.toNat)
    (high : byte.toNat ≤
      (if first.toNat = 0xED then 0x9F else if first.toNat = 0xF4 then 0x8F else 0xBF)) :
    continues [first] byte := by
  simp only [continues, Bool.and_eq_true, decide_eq_true_eq]
  exact ⟨low, high⟩

theorem continues_later {first second byte : UInt8} {held : List UInt8}
    (low : 0x80 ≤ byte.toNat) (high : byte.toNat ≤ 0xBF) :
    continues (first :: second :: held) byte := by
  simp [continues, low, high]

/-- The bytes are those of a character, with nothing held back after them and all of them before. -/
structure Reads (bytes : List UInt8) (char : Char) : Prop where
  yields : yields [] bytes = [char]
  heldAfter : heldAfter [] bytes = []
  cut : ∀ n < bytes.length,
    Utf8.yields [] (bytes.take n) = [] ∧ Utf8.heldAfter [] (bytes.take n) = bytes.take n

/-- Every front of the bytes is held back. -/
def Withheld (held : List UInt8) : Prop :=
  ∀ n ≤ held.length, yields [] (held.take n) = [] ∧ heldAfter [] (held.take n) = held.take n

theorem withheld_first (high : 0x80 ≤ byte.toNat) (begins : following byte ≠ 0) :
    Withheld [byte] := by
  rintro (_ | n) -
  · exact ⟨rfl, rfl⟩
  · simp [yields, heldAfter, feed_first high begins]

namespace Withheld

variable {held : List UInt8} {byte : UInt8}

theorem whole (withheld : Withheld held) : yields [] held = [] ∧ heldAfter [] held = held := by
  simpa using withheld held.length (Nat.le_refl _)

theorem more (withheld : Withheld held) (more : continues held byte)
    (unfinished : held.length ≠ held.head?.elim 0 following) : Withheld (held ++ [byte]) := by
  intro n _
  rcases Nat.lt_or_ge held.length n with beyond | within
  · rw [List.take_of_length_le (by simpa [Nat.succ_le_iff] using beyond), yields_append,
      heldAfter_append, withheld.whole.1, withheld.whole.2]
    simp [yields, heldAfter, feed_more more unfinished]
  · rw [List.take_append_of_le_length within]
    exact withheld n within

theorem last (withheld : Withheld held) (more : continues held byte)
    (finished : held.length = held.head?.elim 0 following) :
    Reads (held ++ [byte]) (value (held ++ [byte])) := by
  refine ⟨?_, ?_, fun n short => ?_⟩
  · rw [yields_append, withheld.whole.1, withheld.whole.2]
    simp [yields, feed_last more finished]
  · rw [heldAfter_append, withheld.whole.2]
    simp [heldAfter, feed_last more finished]
  · have within : n ≤ held.length := by simpa [Nat.lt_succ_iff] using short
    rw [List.take_append_of_le_length within]
    exact withheld n within

end Withheld

theorem toNat_later (n : Nat) : (UInt8.ofNat (n % 0x40 + 0x80)).toNat = n % 0x40 + 0x80 :=
  toNat_ofNat_of_lt (by omega)

variable {v : Nat}

theorem reads_one (low : v ≤ 0x7F) : Reads [UInt8.ofNat v] (Char.ofNat v) := by
  have a : (UInt8.ofNat v).toNat = v := toNat_ofNat_of_lt (by omega)
  have first : feed [] (UInt8.ofNat v) = ([Char.ofNat v], []) := by
    rw [feed_nil, fresh, if_pos (by omega), a]
  refine ⟨by simp only [yields, first, List.append_nil], by simp only [heldAfter, first], ?_⟩
  rintro (_ | n) short
  · exact ⟨rfl, rfl⟩
  · simp at short

theorem reads_two (low : 0x7F < v) (high : v ≤ 0x7FF) :
    Reads [UInt8.ofNat (v / 64 % 0x20 + 0xC0), UInt8.ofNat (v % 0x40 + 0x80)] (Char.ofNat v) := by
  have a : (UInt8.ofNat (v / 64 % 0x20 + 0xC0)).toNat = v / 64 % 0x20 + 0xC0 :=
    toNat_ofNat_of_lt (by omega)
  have b := toNat_later v
  generalize UInt8.ofNat (v / 64 % 0x20 + 0xC0) = first at a
  generalize UInt8.ofNat (v % 0x40 + 0x80) = second at b
  have one : following first = 1 := by
    rw [following, if_pos (by omega)]
  have more : continues [first] second := continues_second (by split_ifs <;> omega)
    (by split_ifs <;> omega)
  have whole : value [first, second] = Char.ofNat v := by
    simp only [value, a, b]
    congr 1
    omega
  have withheld := @withheld_first first (by omega) (by omega)
  exact whole ▸ withheld.last more (by simp [one])

theorem reads_three (low : 0x7FF < v) (high : v ≤ 0xFFFF) (scalar : v < 0xD800 ∨ 0xDFFF < v) :
    Reads [UInt8.ofNat (v / 4096 % 0x10 + 0xE0), UInt8.ofNat (v / 64 % 0x40 + 0x80),
      UInt8.ofNat (v % 0x40 + 0x80)] (Char.ofNat v) := by
  have a : (UInt8.ofNat (v / 4096 % 0x10 + 0xE0)).toNat = v / 4096 % 0x10 + 0xE0 :=
    toNat_ofNat_of_lt (by omega)
  have b := toNat_later (v / 64)
  have c := toNat_later v
  generalize UInt8.ofNat (v / 4096 % 0x10 + 0xE0) = first at a
  generalize UInt8.ofNat (v / 64 % 0x40 + 0x80) = second at b
  generalize UInt8.ofNat (v % 0x40 + 0x80) = third at c
  have two : following first = 2 := by
    rw [following, if_neg (by omega), if_pos (by omega)]
  have more : continues [first] second := continues_second (by split_ifs <;> omega)
    (by split_ifs <;> omega)
  have last : continues [first, second] third := continues_later (by omega) (by omega)
  have whole : value [first, second, third] = Char.ofNat v := by
    simp only [value, a, b, c]
    congr 1
    omega
  have withheld := (@withheld_first first (by omega) (by omega)).more more (by simp [two])
  exact whole ▸ withheld.last last (by simp [two])

theorem reads_four (low : 0xFFFF < v) (high : v < 0x110000) :
    Reads [UInt8.ofNat (v / 262144 % 0x08 + 0xF0), UInt8.ofNat (v / 4096 % 0x40 + 0x80),
      UInt8.ofNat (v / 64 % 0x40 + 0x80), UInt8.ofNat (v % 0x40 + 0x80)] (Char.ofNat v) := by
  have a : (UInt8.ofNat (v / 262144 % 0x08 + 0xF0)).toNat = v / 262144 % 0x08 + 0xF0 :=
    toNat_ofNat_of_lt (by omega)
  have b := toNat_later (v / 4096)
  have c := toNat_later (v / 64)
  have d := toNat_later v
  generalize UInt8.ofNat (v / 262144 % 0x08 + 0xF0) = first at a
  generalize UInt8.ofNat (v / 4096 % 0x40 + 0x80) = second at b
  generalize UInt8.ofNat (v / 64 % 0x40 + 0x80) = third at c
  generalize UInt8.ofNat (v % 0x40 + 0x80) = fourth at d
  have three : following first = 3 := by
    rw [following, if_neg (by omega), if_neg (by omega), if_pos (by omega)]
  have more : continues [first] second := continues_second (by split_ifs <;> omega)
    (by split_ifs <;> omega)
  have further : continues [first, second] third := continues_later (by omega) (by omega)
  have last : continues [first, second, third] fourth := continues_later (by omega) (by omega)
  have whole : value [first, second, third, fourth] = Char.ofNat v := by
    simp only [value, a, b, c, d]
    congr 1
    omega
  have withheld := (@withheld_first first (by omega) (by omega)).more more (by simp [three])
  exact whole ▸ (withheld.more further (by simp [three])).last last (by simp [three])

/-- The bytes of a character are read as it. -/
theorem reads_encodeChar (char : Char) : Reads (String.utf8EncodeChar char) char := by
  have valid : char.val.toNat < 0xD800 ∨ 0xDFFF < char.val.toNat ∧ char.val.toNat < 0x110000 :=
    char.valid
  have whole : Char.ofNat char.val.toNat = char := Char.ofNat_toNat char
  rw [String.utf8EncodeChar]
  generalize char.val.toNat = v at valid whole
  subst whole
  split_ifs with one two three
  · exact reads_one one
  · exact reads_two (by omega) two
  · exact reads_three (by omega) three (by omega)
  · exact reads_four (by omega) (by omega)

theorem decodeFrom_encodeChar (rest : List UInt8) (char : Char) :
    decodeFrom [] (String.utf8EncodeChar char ++ rest) = char :: decodeFrom [] rest := by
  rw [decodeFrom_append, (reads_encodeChar char).yields, (reads_encodeChar char).heldAfter]
  rfl

theorem decodeFrom_encode (rest : List UInt8) (text : List Char) :
    decodeFrom [] (encode text ++ rest) = text ++ decodeFrom [] rest := by
  induction text with
  | nil => rfl
  | cons char text ih =>
      rw [encode, List.flatMap_cons, List.append_assoc, decodeFrom_encodeChar]
      exact congrArg (char :: ·) ih

@[simp]
theorem heldAfter_encode (text : List Char) : heldAfter [] (encode text) = [] := by
  induction text with
  | nil => rfl
  | cons char text ih =>
      rw [encode, List.flatMap_cons, heldAfter_append, (reads_encodeChar char).heldAfter]
      exact ih

@[simp]
theorem fromUtf8Lossy_encode (text : List Char) : fromUtf8Lossy (encode text) = text := by
  simpa [fromUtf8Lossy, decodeFrom, lost] using decodeFrom_encode [] text

@[simp]
theorem yields_encode (text : List Char) : yields [] (encode text) = text := by
  have read := fromUtf8Lossy_encode text
  rw [fromUtf8Lossy, decodeFrom_eq, heldAfter_encode] at read
  simpa [lost] using read

/-- The text of bytes that are nothing but text, where a character at their end may not be whole. -/
def fromUtf8 (bytes : List UInt8) : Option (List Char) :=
  if encode (yields [] bytes) ++ heldAfter [] bytes = bytes then some (yields [] bytes) else none

@[simp]
theorem fromUtf8_encode (text : List Char) : fromUtf8 (encode text) = some text := by
  simp [fromUtf8]

/-- The longest front of a text that fits into so many bytes. -/
def fitting : Nat → List Char → List Char
  | _, [] => []
  | room, char :: text =>
      if (String.utf8EncodeChar char).length ≤ room then
        char :: fitting (room - (String.utf8EncodeChar char).length) text
      else []

theorem fitting_prefix (room : Nat) (text : List Char) : fitting room text <+: text := by
  induction text generalizing room with
  | nil => exact List.nil_prefix
  | cons char text ih =>
      rw [fitting]
      split
      · exact List.cons_prefix_cons.mpr ⟨rfl, ih _⟩
      · exact List.nil_prefix

theorem length_encode_fitting_le (room : Nat) (text : List Char) :
    (encode (fitting room text)).length ≤ room := by
  induction text generalizing room with
  | nil => exact Nat.zero_le _
  | cons char text ih =>
      rw [fitting]
      split
      · have later := ih (room - (String.utf8EncodeChar char).length)
        rw [encode, List.flatMap_cons, ← encode, List.length_append]
        omega
      · exact Nat.zero_le _

/-- Every front that fits is a front of it. -/
theorem prefix_fitting {room : Nat} {front text : List Char} (starts : front <+: text)
    (fits : (encode front).length ≤ room) : front <+: fitting room text := by
  induction text generalizing room front with
  | nil => exact starts
  | cons char text ih =>
      cases front with
      | nil => exact List.nil_prefix
      | cons first front =>
          obtain ⟨rfl, later⟩ := List.cons_prefix_cons.mp starts
          rw [encode, List.flatMap_cons, ← encode, List.length_append] at fits
          rw [fitting, if_pos (by omega)]
          exact List.cons_prefix_cons.mpr ⟨rfl, ih later (by omega)⟩

/-- Of a text that is cut off, the characters before the cut are read, and those alone. -/
theorem fromUtf8_take (room : Nat) (text : List Char) :
    fromUtf8 ((encode text).take room) = some (fitting room text) := by
  have read : yields [] ((encode text).take room) = fitting room text ∧
      encode (fitting room text) ++ heldAfter [] ((encode text).take room) =
        (encode text).take room := by
    induction text generalizing room with
    | nil => simp [encode, yields, heldAfter, fitting]
    | cons char text ih =>
        have reads := reads_encodeChar char
        rw [encode, List.flatMap_cons, ← encode, fitting]
        split
        · rename_i fits
          obtain ⟨chars, whole⟩ := ih (room - (String.utf8EncodeChar char).length)
          rw [List.take_append, List.take_of_length_le fits, yields_append, heldAfter_append,
            reads.yields, reads.heldAfter, chars, encode, List.flatMap_cons, ← encode,
            List.append_assoc, whole]
          exact ⟨rfl, rfl⟩
        · rename_i cut
          rw [List.take_append_of_le_length (by omega)]
          obtain ⟨none, all⟩ := reads.cut room (by omega)
          exact ⟨none, by rw [all]; rfl⟩
  rw [fromUtf8, read.1, if_pos read.2]

/-! ## Texts decoded piece by piece -/

section Pieces

variable (held : List UInt8)

/-- No piece goes on with a character that was begun before it. -/
def CutsWhole : List UInt8 → List (List UInt8) → Prop
  | _, [] => True
  | held, piece :: pieces =>
      (∀ byte ∈ piece.head?, continues held byte = false) ∧ CutsWhole (heldAfter held piece) pieces

theorem continues_range {held : List UInt8} (more : continues held byte) :
    held ≠ [] ∧ 0x80 ≤ byte.toNat ∧ byte.toNat ≤ 0xBF := by
  unfold continues at more
  split at more
  · cases more
  · rename_i first
    simp only [Bool.and_eq_true, decide_eq_true_eq] at more
    obtain ⟨low, high⟩ := more
    refine ⟨List.cons_ne_nil _ _, ?_, ?_⟩
    · split_ifs at low <;> omega
    · split_ifs at high <;> omega
  · rename_i none _
    simp only [Bool.and_eq_true, decide_eq_true_eq] at more
    exact ⟨none, more⟩

/-- A byte that would go on with a character is none where no character is begun. -/
theorem fresh_of_continues {held : List UInt8} (more : continues held byte) :
    fresh byte = ([replacement], []) := by
  obtain ⟨-, low, high⟩ := continues_range more
  have begins_none : following byte = 0 := by
    rw [following, if_neg (by omega), if_neg (by omega), if_neg (by omega)]
  rw [fresh, if_neg (by omega), if_pos begins_none]

theorem lost_of_continues {held : List UInt8} (more : continues held byte) :
    lost held = [replacement] := by
  rw [lost, if_neg (by simpa using (continues_range more).1)]

/-- Where the bytes do not go on with what was begun, that is lost and they are read afresh. -/
theorem decodeFrom_of_apart {held bytes : List UInt8}
    (apart : ∀ byte ∈ bytes.head?, continues held byte = false) :
    decodeFrom held bytes = lost held ++ decodeFrom [] bytes := by
  cases bytes with
  | nil => simp [decodeFrom, lost]
  | cons byte bytes =>
      have other : ¬continues held byte := by simp [apart byte rfl]
      rw [decodeFrom_cons, decodeFrom_cons, feed_nil, feed, if_neg other, List.append_assoc]

theorem heldAfter_of_apart {held bytes : List UInt8} (some : bytes ≠ [])
    (apart : ∀ byte ∈ bytes.head?, continues held byte = false) :
    heldAfter held bytes = heldAfter [] bytes := by
  cases bytes with
  | nil => exact absurd rfl some
  | cons byte bytes =>
      have other : ¬continues held byte := by simp [apart byte rfl]
      rw [heldAfter, heldAfter, feed_nil, feed, if_neg other]

/-- Bytes that go on with what was begun are replaced less often than when that is lost. -/
theorem count_decodeFrom_lt {bytes : List UInt8} :
    ∀ {held : List UInt8}, continues held byte →
      (decodeFrom held (byte :: bytes)).count replacement <
        (lost held ++ decodeFrom [] (byte :: bytes)).count replacement := by
  induction bytes generalizing byte with
  | nil =>
      intro held more
      rw [lost_of_continues more, decodeFrom_cons [], feed_nil, fresh_of_continues more]
      by_cases finished : held.length = held.head?.elim 0 following
      · rw [decodeFrom_cons, feed_last more finished]
        have few := List.count_le_length (a := replacement) (l := [value (held ++ [byte])])
        simp [decodeFrom, lost] at few ⊢
        omega
      · rw [decodeFrom_cons, feed_more more finished]
        simp [decodeFrom, lost]
  | cons next bytes ih =>
      intro held more
      rw [lost_of_continues more, decodeFrom_cons [], feed_nil, fresh_of_continues more]
      by_cases finished : held.length = held.head?.elim 0 following
      · rw [decodeFrom_cons, feed_last more finished]
        have few := List.count_le_length (a := replacement) (l := [value (held ++ [byte])])
        simp only [List.count_append, List.count_singleton_self, List.length_singleton] at few ⊢
        omega
      · rw [decodeFrom_cons, feed_more more finished]
        have begun : lost (held ++ [byte]) = [replacement] := by simp [lost]
        by_cases again : continues (held ++ [byte]) next
        · have less := ih again
          rw [begun] at less
          simp only [List.count_append, List.count_singleton_self, List.nil_append] at less ⊢
          omega
        · rw [decodeFrom_of_apart (by simpa using again), begun]
          simp

/-- Pieces decoded by themselves give what they give together if no character is cut, and are
replaced more often otherwise. -/
theorem decodeFrom_flatten (pieces : List (List UInt8)) (held : List UInt8) :
    (CutsWhole held pieces ∧
        decodeFrom held pieces.flatten = lost held ++ pieces.flatMap fromUtf8Lossy) ∨
      ¬CutsWhole held pieces ∧ (decodeFrom held pieces.flatten).count replacement <
        (lost held ++ pieces.flatMap fromUtf8Lossy).count replacement := by
  induction pieces generalizing held with
  | nil => exact .inl ⟨trivial, by simp [decodeFrom]⟩
  | cons piece pieces ih =>
      by_cases empty : piece = []
      · subst empty
        have nothing : fromUtf8Lossy [] = [] := rfl
        simpa [CutsWhole, heldAfter, nothing] using ih held
      · -- what the first piece yields by itself, and what is left to the others
        have first : fromUtf8Lossy piece = yields [] piece ++ lost (heldAfter [] piece) :=
          decodeFrom_eq [] piece
        have together : decodeFrom [] (piece ++ pieces.flatten) =
            yields [] piece ++ decodeFrom (heldAfter [] piece) pieces.flatten :=
          decodeFrom_append [] piece pieces.flatten
        have later := ih (heldAfter [] piece)
        rw [List.flatten_cons, List.flatMap_cons, first]
        by_cases apart : ∀ byte ∈ piece.head?, continues held byte = false
        · have goes_on : ∀ byte ∈ (piece ++ pieces.flatten).head?, continues held byte = false := by
            rwa [List.head?_append_of_ne_nil _ empty]
          rw [decodeFrom_of_apart goes_on, together, CutsWhole, heldAfter_of_apart empty apart]
          rcases later with ⟨whole, same⟩ | ⟨cut, more⟩
          · exact .inl ⟨⟨apart, whole⟩, by rw [same, List.append_assoc]⟩
          · refine .inr ⟨fun both => cut both.2, ?_⟩
            simp only [List.count_append] at more ⊢
            omega
        · right
          refine ⟨fun both => apart both.1, ?_⟩
          obtain ⟨byte, bytes, rfl⟩ := List.exists_cons_of_ne_nil empty
          have more : continues held byte := by simpa using apart
          have less := @count_decodeFrom_lt _ (bytes ++ pieces.flatten) _ more
          rw [← List.cons_append, together] at less
          have at_most :
              (decodeFrom (heldAfter [] (byte :: bytes)) pieces.flatten).count replacement ≤
                (lost (heldAfter [] (byte :: bytes)) ++ pieces.flatMap fromUtf8Lossy).count
                  replacement := by
            rcases later with ⟨-, same⟩ | ⟨-, fewer⟩
            · exact Nat.le_of_eq (congrArg (List.count replacement) same)
            · exact Nat.le_of_lt fewer
          simp only [List.count_append] at less at_most ⊢
          omega

theorem count_lt_of_not_cutsWhole {pieces : List (List UInt8)} (cut : ¬CutsWhole [] pieces) :
    (fromUtf8Lossy pieces.flatten).count replacement <
      (pieces.flatMap fromUtf8Lossy).count replacement := by
  rcases decodeFrom_flatten pieces [] with ⟨whole, -⟩ | ⟨-, less⟩
  · exact absurd whole cut
  · exact less

theorem flatMap_of_cutsWhole {pieces : List (List UInt8)} (whole : CutsWhole [] pieces) :
    pieces.flatMap fromUtf8Lossy = fromUtf8Lossy pieces.flatten := by
  rcases decodeFrom_flatten pieces [] with ⟨-, same⟩ | ⟨cut, -⟩
  · exact same.symm
  · exact absurd whole cut

/-- Pieces decoded by themselves are replaced as often as when they are decoded together exactly if
no character is cut. -/
theorem count_flatMap_eq_iff {pieces : List (List UInt8)} :
    (pieces.flatMap fromUtf8Lossy).count replacement =
        (fromUtf8Lossy pieces.flatten).count replacement ↔ CutsWhole [] pieces := by
  constructor
  · intro same
    by_contra cut
    exact absurd same (Nat.ne_of_gt (count_lt_of_not_cutsWhole cut))
  · intro whole
    rw [flatMap_of_cutsWhole whole]

end Pieces

end Utf8
end Fghj
