import Fghj.Library.Utf8
import Mathlib.Data.List.Infix

/-!
# Texts whose bytes come in pieces

However the bytes of a text are cut, every character of one byte is read back where it stands. In
the place of any other character, only others are read.
-/

namespace Fghj
namespace Utf8

/-- A character of one byte. -/
def Ascii (char : Char) : Prop := char.toNat < 0x80

instance (char : Char) : Decidable (Ascii char) := inferInstanceAs (Decidable (_ < _))

/-! ## Bytes of longer characters -/

/-- The beginning of a sequence that is not whole yet. -/
def Begun : List UInt8 → Prop
  | [] => True
  | [a] => following a ≠ 0
  | [a, b] => 2 ≤ following a ∧ continues [a] b
  | [a, b, c] => following a = 3 ∧ continues [a] b ∧ continues [a, b] c
  | _ => False

theorem following_cases (byte : UInt8) :
    following byte = 0 ∨ following byte = 1 ∧ 0xC2 ≤ byte.toNat ∧ byte.toNat ≤ 0xDF ∨
      following byte = 2 ∧ 0xE0 ≤ byte.toNat ∧ byte.toNat ≤ 0xEF ∨
      following byte = 3 ∧ 0xF0 ≤ byte.toNat ∧ byte.toNat ≤ 0xF4 := by
  rw [following]
  split_ifs <;> omega

theorem toNat_ofNat {code : Nat} (valid : code < 0xD800 ∨ 0xDFFF < code ∧ code < 0x110000) :
    (Char.ofNat code).toNat = code := by
  rw [Char.ofNat, dif_pos valid]
  rfl

/-- What follows the first byte of a sequence lies in the range that first byte has. -/
theorem second_range {a b : UInt8} (more : continues [a] b) :
    (if a.toNat = 0xE0 then 0xA0 else if a.toNat = 0xF0 then 0x90 else 0x80) ≤ b.toNat ∧
      b.toNat ≤ (if a.toNat = 0xED then 0x9F else if a.toNat = 0xF4 then 0x8F else 0xBF) := by
  simpa only [continues, Bool.and_eq_true, decide_eq_true_eq] using more

variable {held : List UInt8} {byte : UInt8}

/-- A whole sequence is a longer character. -/
theorem value_high (begun : Begun held) (more : continues held byte)
    (finished : held.length = held.head?.elim 0 following) : ¬Ascii (value (held ++ [byte])) := by
  obtain ⟨some, -, -⟩ := continues_range more
  match held, begun, more, finished with
  | [a], _, more, finished =>
      have one : following a = 1 := finished.symm
      have range := following_cases a
      obtain ⟨low, high⟩ := second_range more
      rw [Ascii, List.cons_append, List.nil_append, value, toNat_ofNat (by omega)]
      omega
  | [a, b], ⟨_, second⟩, more, finished =>
      have two : following a = 2 := finished.symm
      have range := following_cases a
      obtain ⟨low, high⟩ := second_range second
      obtain ⟨-, third_low, third_high⟩ := continues_range more
      rw [Ascii, List.cons_append, List.cons_append, List.nil_append, value]
      rw [toNat_ofNat (by split_ifs at low high <;> omega)]
      split_ifs at low high <;> omega
  | [a, b, c], ⟨three, second, third⟩, more, _ =>
      have range := following_cases a
      obtain ⟨low, high⟩ := second_range second
      obtain ⟨-, third_low, third_high⟩ := continues_range third
      obtain ⟨-, last_low, last_high⟩ := continues_range more
      rw [Ascii, List.cons_append, List.cons_append, List.cons_append, List.nil_append, value]
      rw [toNat_ofNat (by split_ifs at low high <;> omega)]
      split_ifs at low high <;> omega

theorem replacement_high : ¬Ascii replacement := by decide

theorem lost_high : ∀ char ∈ lost held, ¬Ascii char := by
  intro char member
  rw [lost] at member
  split at member
  · cases member
  · rw [List.mem_singleton.mp member]
    exact replacement_high

theorem begun_feed (begun : Begun held) (high : 0x80 ≤ byte.toNat) :
    Begun (feed held byte).2 ∧ ∀ char ∈ (feed held byte).1, ¬Ascii char := by
  by_cases more : continues held byte
  · by_cases finished : held.length = held.head?.elim 0 following
    · rw [feed_last more finished]
      exact ⟨trivial, List.forall_mem_singleton.mpr (value_high begun more finished)⟩
    · rw [feed_more more finished]
      refine ⟨?_, fun char member => absurd member List.not_mem_nil⟩
      match held, begun, more, finished with
      | [a], begins, more, finished =>
          have range := following_cases a
          have long : following a ≠ 1 := fun one => finished one.symm
          have some : following a ≠ 0 := begins
          exact ⟨by omega, more⟩
      | [a, b], ⟨two, second⟩, more, finished =>
          have range := following_cases a
          have long : following a ≠ 2 := fun same => finished same.symm
          exact ⟨by omega, second, more⟩
      | [a, b, c], ⟨three, _, _⟩, _, finished => exact absurd three.symm finished
  · rw [feed, if_neg more, fresh, if_neg (by omega)]
    by_cases begins_none : following byte = 0
    · rw [if_pos begins_none]
      exact ⟨trivial, List.forall_mem_append.mpr
        ⟨lost_high, List.forall_mem_singleton.mpr replacement_high⟩⟩
    · rw [if_neg begins_none]
      exact ⟨begins_none, by simpa using lost_high⟩

variable {bytes : List UInt8}

/-- Bytes that are no characters by themselves are read as longer characters. -/
theorem decodeFrom_high (high : ∀ byte ∈ bytes, 0x80 ≤ byte.toNat) :
    ∀ {held : List UInt8}, Begun held → ∀ char ∈ decodeFrom held bytes, ¬Ascii char := by
  induction bytes with
  | nil => exact fun _ => lost_high
  | cons byte bytes ih =>
      intro held begun
      obtain ⟨first, later⟩ := List.forall_mem_cons.mp high
      obtain ⟨goes_on, chars⟩ := begun_feed begun first
      exact List.forall_mem_append.mpr ⟨chars, ih later goes_on⟩

/-! ## Cutting the pieces in two -/

/-- The pieces of the first so many bytes, and those of the others. -/
def cutAt : Nat → List (List UInt8) → List (List UInt8) × List (List UInt8)
  | _, [] => ([], [])
  | size, piece :: pieces =>
      if piece.length ≤ size then
        let (front, back) := cutAt (size - piece.length) pieces
        (piece :: front, back)
      else ([piece.take size], piece.drop size :: pieces)

/-- No character goes on with the byte. -/
def Leads (byte : UInt8) : Prop := byte.toNat < 0x80 ∨ 0xBF < byte.toNat

theorem Leads.continues (leads : Leads byte) (held : List UInt8) : continues held byte = false := by
  rw [Bool.eq_false_iff]
  intro more
  obtain ⟨-, low, high⟩ := continues_range more
  rcases leads with below | above <;> omega

theorem cutAt_flatten {pieces : List (List UInt8)} {front back : List UInt8}
    (whole : pieces.flatten = front ++ back) :
    (cutAt front.length pieces).1.flatten = front ∧
      (cutAt front.length pieces).2.flatten = back := by
  induction pieces generalizing front with
  | nil =>
      obtain ⟨rfl, rfl⟩ := List.append_eq_nil_iff.mp whole.symm
      exact ⟨rfl, rfl⟩
  | cons piece pieces ih =>
      rw [List.flatten_cons] at whole
      rw [cutAt]
      split
      · rename_i inside
        obtain ⟨rest, rfl⟩ : piece <+: front :=
          List.prefix_of_prefix_length_le (whole ▸ List.prefix_append _ _)
            (List.prefix_append _ _) inside
        rw [List.append_assoc, List.append_cancel_left_eq] at whole
        obtain ⟨first, second⟩ := ih whole
        rw [List.length_append, Nat.add_sub_cancel_left]
        exact ⟨congrArg (piece ++ ·) first, second⟩
      · rename_i outside
        obtain ⟨rest, rfl⟩ : front <+: piece :=
          List.prefix_of_prefix_length_le (List.prefix_append front back)
            (whole ▸ List.prefix_append _ _) (by omega)
        rw [List.append_assoc, List.append_cancel_left_eq] at whole
        simp [whole]

/-- A piece that is cut where a character begins is read like its two halves. -/
theorem fromUtf8Lossy_append (front : List UInt8) {back : List UInt8}
    (leads : ∀ byte ∈ back.head?, Leads byte) :
    fromUtf8Lossy (front ++ back) = fromUtf8Lossy front ++ fromUtf8Lossy back := by
  rw [fromUtf8Lossy, decodeFrom_append,
    decodeFrom_of_apart fun byte first => (leads byte first).continues _, ← List.append_assoc,
    ← decodeFrom_eq]
  rfl

/-- Pieces that are cut where a character begins are read like those before and those after. -/
theorem cutAt_read {pieces : List (List UInt8)} {front back : List UInt8}
    (whole : pieces.flatten = front ++ back) (leads : ∀ byte ∈ back.head?, Leads byte) :
    pieces.flatMap fromUtf8Lossy = (cutAt front.length pieces).1.flatMap fromUtf8Lossy ++
      (cutAt front.length pieces).2.flatMap fromUtf8Lossy := by
  induction pieces generalizing front with
  | nil => rfl
  | cons piece pieces ih =>
      rw [List.flatten_cons] at whole
      rw [cutAt]
      split
      · rename_i inside
        obtain ⟨rest, rfl⟩ : piece <+: front :=
          List.prefix_of_prefix_length_le (whole ▸ List.prefix_append _ _)
            (List.prefix_append _ _) inside
        rw [List.append_assoc, List.append_cancel_left_eq] at whole
        rw [List.length_append, Nat.add_sub_cancel_left, List.flatMap_cons, ih whole,
          ← List.append_assoc]
        rfl
      · rename_i outside
        obtain ⟨rest, rfl⟩ : front <+: piece :=
          List.prefix_of_prefix_length_le (List.prefix_append front back)
            (whole ▸ List.prefix_append _ _) (by omega)
        rw [List.append_assoc, List.append_cancel_left_eq] at whole
        have some : rest ≠ [] := by
          rintro rfl
          simp at outside
        have rest_leads : ∀ byte ∈ rest.head?, Leads byte := by
          rw [← whole, List.head?_append_of_ne_nil _ some] at leads
          exact leads
        rw [List.flatMap_cons, fromUtf8Lossy_append front rest_leads]
        simp

/-! ## What is read of a text -/

/-- The other text has the same characters of one byte, and between them others for others. -/
inductive Alike : List Char → List Char → Prop where
  | nil : Alike [] []
  | ascii {char : Char} {text other : List Char} :
      Ascii char → Alike text other → Alike (char :: text) (char :: other)
  | long {char : Char} {chars text other : List Char} :
      ¬Ascii char → (∀ char ∈ chars, ¬Ascii char) → Alike text other →
        Alike (char :: text) (chars ++ other)

theorem Alike.refl (text : List Char) : Alike text text := by
  induction text with
  | nil => exact .nil
  | cons char text ih =>
      by_cases ascii : Ascii char
      · exact .ascii ascii ih
      · exact .long ascii (List.forall_mem_singleton.mpr ascii) ih

theorem Alike.append {front back whole : List Char} (alike : Alike (front ++ back) whole) :
    ∃ read rest, whole = read ++ rest ∧ Alike front read ∧ Alike back rest := by
  induction front generalizing whole with
  | nil => exact ⟨[], whole, rfl, .nil, alike⟩
  | cons char front ih =>
      rw [List.cons_append] at alike
      cases alike with
      | ascii short later =>
          obtain ⟨read, rest, rfl, first, second⟩ := ih later
          exact ⟨char :: read, rest, rfl, .ascii short first, second⟩
      | long high chars later =>
          obtain ⟨read, rest, rfl, first, second⟩ := ih later
          exact ⟨_ ++ read, rest, (List.append_assoc _ _ _).symm, .long high chars first, second⟩

/-- Text of characters of one byte is read as it is. -/
theorem Alike.eq {text other : List Char} (alike : Alike text other)
    (ascii : ∀ char ∈ text, Ascii char) : other = text := by
  induction alike with
  | nil => rfl
  | ascii _ _ ih => rw [ih (List.forall_mem_cons.mp ascii).2]
  | long high _ _ _ => exact absurd (List.forall_mem_cons.mp ascii).1 high

variable {char : Char}

theorem Alike.count {text other : List Char} (alike : Alike text other) (ascii : Ascii char) :
    other.count char = text.count char := by
  induction alike with
  | nil => rfl
  | ascii _ _ ih => rw [List.count_cons, List.count_cons, ih]
  | @long first chars text other high rest _ ih =>
      have none : chars.count char = 0 :=
        List.count_eq_zero.mpr fun member => rest char member ascii
      have different : first ≠ char := fun same => high (same ▸ ascii)
      rw [List.count_append, none, ih, List.count_cons_of_ne different, Nat.zero_add]

theorem leads_encodeChar (char : Char) :
    ∀ byte ∈ (String.utf8EncodeChar char).head?, Leads byte := by
  rw [String.utf8EncodeChar]
  generalize char.val.toNat = v
  split_ifs with one two three
  all_goals
    intro byte first
    rw [← Option.mem_some.mp first, Leads, toNat_ofNat_of_lt (by omega)]
    omega

theorem leads_encode (text : List Char) : ∀ byte ∈ (encode text).head?, Leads byte := by
  cases text with
  | nil => exact fun byte none => absurd none (by simp [encode])
  | cons char text =>
      have some : String.utf8EncodeChar char ≠ [] := by
        rw [String.utf8EncodeChar]
        split_ifs <;> exact List.cons_ne_nil _ _
      rw [encode, List.flatMap_cons, List.head?_append_of_ne_nil _ some]
      exact leads_encodeChar char

theorem encodeChar_ascii (ascii : Ascii char) :
    String.utf8EncodeChar char = [UInt8.ofNat char.toNat] := by
  rw [String.utf8EncodeChar, if_pos (show char.val.toNat ≤ 0x7F from Nat.le_of_lt_succ ascii)]
  rfl

theorem encodeChar_long (long : ¬Ascii char) :
    ∀ byte ∈ String.utf8EncodeChar char, 0x80 ≤ byte.toNat := by
  have above : ¬char.val.toNat ≤ 0x7F := fun small => long (Nat.lt_succ_of_le small)
  rw [String.utf8EncodeChar, if_neg above]
  generalize char.val.toNat = v at above
  intro byte member
  split_ifs at member <;> simp only [List.mem_cons, List.not_mem_nil, or_false] at member
  · rcases member with rfl | rfl <;> rw [toNat_ofNat_of_lt (by omega)] <;> omega
  · rcases member with rfl | rfl | rfl <;> rw [toNat_ofNat_of_lt (by omega)] <;> omega
  · rcases member with rfl | rfl | rfl | rfl <;> rw [toNat_ofNat_of_lt (by omega)] <;> omega

theorem cutsWhole_of_leads {pieces : List (List UInt8)}
    (leads : ∀ byte ∈ pieces.flatten, Leads byte) (held : List UInt8) : CutsWhole held pieces := by
  induction pieces generalizing held with
  | nil => trivial
  | cons piece pieces ih =>
      rw [List.flatten_cons, List.forall_mem_append] at leads
      exact ⟨fun byte first => (leads.1 byte (List.mem_of_mem_head? first)).continues held,
        ih leads.2 _⟩

/-- However the bytes of a text are cut, they are read as one that is like it. -/
theorem alike_of_pieces (text : List Char) {pieces : List (List UInt8)}
    (whole : pieces.flatten = encode text) : Alike text (pieces.flatMap fromUtf8Lossy) := by
  induction text generalizing pieces with
  | nil =>
      have nothing : pieces.flatMap fromUtf8Lossy = [] := by
        rw [List.flatMap_eq_nil_iff]
        intro piece member
        rw [List.flatten_eq_nil_iff.mp whole piece member]
        rfl
      rw [nothing]
      exact .nil
  | cons char text ih =>
      rw [encode, List.flatMap_cons, ← encode] at whole
      obtain ⟨first, second⟩ := cutAt_flatten whole
      rw [cutAt_read whole (leads_encode text)]
      by_cases ascii : Ascii char
      · have one : (cutAt (String.utf8EncodeChar char).length pieces).1.flatMap fromUtf8Lossy =
            [char] := by
          have leads : ∀ byte ∈ (cutAt (String.utf8EncodeChar char).length pieces).1.flatten,
              Leads byte := by
            rw [first, encodeChar_ascii ascii]
            refine List.forall_mem_singleton.mpr (.inl ?_)
            rw [toNat_ofNat_of_lt (Nat.lt_trans ascii (by decide))]
            exact ascii
          rw [flatMap_of_cutsWhole (cutsWhole_of_leads leads []), first, fromUtf8Lossy]
          simpa [decodeFrom, lost] using decodeFrom_encodeChar [] char
        rw [one]
        exact .ascii ascii (ih second)
      · refine .long ascii (fun read member => ?_) (ih second)
        obtain ⟨piece, inside, here⟩ := List.mem_flatMap.mp member
        refine @decodeFrom_high piece (fun byte of => encodeChar_long ascii byte ?_) [] trivial read
          here
        rw [← first]
        exact List.mem_flatten.mpr ⟨piece, inside, of⟩

/-! ## Characters of one byte in what is read -/

theorem feed_ascii (held : List UInt8) (ascii : byte.toNat < 0x80) :
    feed held byte = (lost held ++ [Char.ofNat byte.toNat], []) := by
  have other : ¬continues held byte := by simp [Leads.continues (.inl ascii) held]
  rw [feed, if_neg other, fresh, if_pos ascii]

theorem toNat_ofNat_byte (ascii : byte.toNat < 0x80) :
    UInt8.ofNat (Char.ofNat byte.toNat).toNat = byte := by
  rw [toNat_ofNat (by omega), UInt8.ofNat_toNat]

/-- After a character that was begun, no character of one byte is read first. -/
theorem decodeFrom_begun (some : held ≠ []) (begun : Begun held) (bytes : List UInt8) :
    ∀ char ∈ (decodeFrom held bytes).head?, ¬Ascii char := by
  have lost_eq {held : List UInt8} (some : held ≠ []) : lost held = [replacement] := by
    rw [lost, if_neg (by simpa using some)]
  induction bytes generalizing held with
  | nil =>
      rw [decodeFrom, lost_eq some]
      exact fun char first => Option.mem_some.mp first ▸ replacement_high
  | cons byte bytes ih =>
      rw [decodeFrom_cons]
      by_cases more : continues held byte
      · by_cases finished : held.length = held.head?.elim 0 following
        · rw [feed_last more finished]
          exact fun char first => Option.mem_some.mp first ▸ value_high begun more finished
        · have goes_on := (begun_feed begun (continues_range more).2.1).1
          rw [feed_more more finished] at goes_on ⊢
          exact ih (by simp) goes_on
      · rw [feed, if_neg more, lost_eq some]
        exact fun char first => Option.mem_some.mp first ▸ replacement_high

/-- A character of one byte that is read first is the first byte. -/
theorem decodeFrom_first {text : List Char} (read : decodeFrom [] bytes = char :: text)
    (ascii : Ascii char) :
    ∃ later, bytes = UInt8.ofNat char.toNat :: later ∧ decodeFrom [] later = text := by
  cases bytes with
  | nil => cases read
  | cons byte bytes =>
      rw [decodeFrom_cons] at read
      by_cases low : byte.toNat < 0x80
      · simp only [feed_ascii [] low, lost, List.isEmpty_nil, if_true, List.nil_append,
          List.singleton_append, List.cons.injEq] at read
        obtain ⟨rfl, later⟩ := read
        exact ⟨bytes, by rw [toNat_ofNat_byte low], later⟩
      · rw [feed_nil, fresh, if_neg low] at read
        split at read
        · obtain rfl := (List.cons.inj read).1
          exact absurd ascii replacement_high
        · rename_i begins
          refine absurd ascii (decodeFrom_begun (List.cons_ne_nil byte []) begins bytes char ?_)
          rw [List.nil_append] at read
          rw [read]
          rfl

/-- A character of one byte that is read is one of the bytes, and what is read after it is read of
the bytes after it. -/
theorem decodeFrom_inside (ascii : Ascii char) :
    ∀ {held : List UInt8} {front text : List Char}, Begun held →
      decodeFrom held bytes = front ++ char :: text →
      ∃ before later, bytes = before ++ UInt8.ofNat char.toNat :: later ∧
        decodeFrom [] later = text := by
  induction bytes with
  | nil =>
      intro held front text _ read
      refine absurd ascii (@lost_high held char ?_)
      rw [decodeFrom] at read
      rw [read]
      exact List.mem_append_right _ List.mem_cons_self
  | cons byte bytes ih =>
      intro held front text begun read
      rw [decodeFrom_cons] at read
      by_cases low : byte.toNat < 0x80
      · rw [feed_ascii held low, List.append_assoc, List.singleton_append] at read
        rcases List.append_eq_append_iff.mp read with ⟨inner, rfl, rest⟩ | ⟨inner, lost_eq, rest⟩
        · cases inner with
          | nil =>
              obtain ⟨rfl, same⟩ := List.cons.inj rest
              exact ⟨[], bytes, by rw [toNat_ofNat_byte low]; rfl, same⟩
          | cons first inner =>
              obtain ⟨before, later, whole, same⟩ := @ih [] _ _ trivial (List.cons.inj rest).2
              exact ⟨byte :: before, later, by rw [whole]; rfl, same⟩
        · cases inner with
          | nil =>
              obtain ⟨rfl, same⟩ := List.cons.inj rest
              exact ⟨[], bytes, by rw [toNat_ofNat_byte low]; rfl, same.symm⟩
          | cons first inner =>
              obtain ⟨rfl, -⟩ := List.cons.inj rest
              refine absurd ascii (@lost_high held char ?_)
              rw [lost_eq]
              exact List.mem_append_right _ List.mem_cons_self
      · obtain ⟨goes_on, chars⟩ := begun_feed begun (by omega : 0x80 ≤ byte.toNat)
        rcases List.append_eq_append_iff.mp read with ⟨inner, rfl, rest⟩ | ⟨inner, yielded, rest⟩
        · obtain ⟨before, later, whole, same⟩ := ih goes_on rest
          exact ⟨byte :: before, later, by rw [whole]; rfl, same⟩
        · cases inner with
          | nil =>
              obtain ⟨before, later, whole, same⟩ := @ih _ [] _ goes_on rest.symm
              exact ⟨byte :: before, later, by rw [whole]; rfl, same⟩
          | cons first inner =>
              obtain ⟨rfl, -⟩ := List.cons.inj rest
              refine absurd ascii (chars char ?_)
              rw [yielded]
              exact List.mem_append_right _ List.mem_cons_self

/-- Characters of one byte that are read one after the other are bytes one after the other. -/
theorem infix_of_fromUtf8Lossy {pattern : List Char} (ascii : ∀ char ∈ pattern, Ascii char)
    (read : pattern <:+: fromUtf8Lossy bytes) : encode pattern <:+: bytes := by
  -- what is read after a pattern that is read first
  have first : ∀ {pattern text : List Char} {bytes : List UInt8},
      (∀ char ∈ pattern, Ascii char) → decodeFrom [] bytes = pattern ++ text →
        encode pattern <+: bytes := by
    intro pattern
    induction pattern with
    | nil => exact fun _ _ => List.nil_prefix
    | cons char pattern ih =>
        intro text bytes ascii read
        obtain ⟨short, shorts⟩ := List.forall_mem_cons.mp ascii
        obtain ⟨later, rfl, rest⟩ := decodeFrom_first read short
        rw [encode, List.flatMap_cons, encodeChar_ascii short]
        exact List.cons_prefix_cons.mpr ⟨rfl, ih shorts rest⟩
  cases pattern with
  | nil => exact List.nil_infix
  | cons char pattern =>
      obtain ⟨short, shorts⟩ := List.forall_mem_cons.mp ascii
      obtain ⟨front, back, whole⟩ := read
      rw [fromUtf8Lossy, List.append_assoc, List.cons_append] at whole
      obtain ⟨before, later, rfl, rest⟩ :=
        @decodeFrom_inside bytes char short [] _ _ trivial whole.symm
      obtain ⟨after, rfl⟩ := first shorts rest
      refine ⟨before, after, ?_⟩
      rw [encode, List.flatMap_cons, encodeChar_ascii short]
      simp [encode]

theorem length_encode_ascii {text : List Char} (ascii : ∀ char ∈ text, Ascii char) :
    (encode text).length = text.length := by
  induction text with
  | nil => rfl
  | cons char text ih =>
      obtain ⟨first, later⟩ := List.forall_mem_cons.mp ascii
      rw [encode, List.flatMap_cons, ← encode, List.length_append, ih later,
        encodeChar_ascii first, List.length_singleton, List.length_cons, Nat.add_comm]

theorem encode_infix_iff {pattern text : List Char} :
    encode pattern <:+: encode text ↔ pattern <:+: text := by
  constructor
  · rintro ⟨front, back, whole⟩
    cases pattern with
    | nil => exact List.nil_infix
    | cons char pattern =>
        have leads : ∀ byte ∈ (encode (char :: pattern) ++ back).head?, Leads byte := by
          have some : encode (char :: pattern) ≠ [] := by simp [encode, List.flatMap_cons]
          rw [List.head?_append_of_ne_nil _ some]
          exact leads_encode _
        have read := fromUtf8Lossy_append front leads
        rw [← List.append_assoc, whole, fromUtf8Lossy_encode] at read
        refine ⟨fromUtf8Lossy front, decodeFrom [] back, ?_⟩
        rw [read, List.append_assoc]
        exact congrArg (fromUtf8Lossy front ++ ·) (decodeFrom_encode back (char :: pattern)).symm
  · rintro ⟨front, back, rfl⟩
    rw [encode_append, encode_append]
    exact ⟨_, _, rfl⟩

theorem mem_encode_iff (ascii : Ascii char) {text : List Char} :
    UInt8.ofNat char.toNat ∈ encode text ↔ char ∈ text := by
  have one : encode [char] = [UInt8.ofNat char.toNat] := by
    rw [encode, List.flatMap_cons, encodeChar_ascii ascii, List.flatMap_nil, List.append_nil]
  rw [← List.singleton_infix_iff, ← one, encode_infix_iff, List.singleton_infix_iff]

end Utf8
end Fghj
