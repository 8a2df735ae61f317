import Fghj.Multipart

/-!
# Captured bodies

Chunks are added to what is kept of a body until it is full. What is kept is the front of the body,
however it was cut into chunks, and of a text it is read as the characters that are whole.
-/

namespace Fghj
namespace Traffic

/-! ## Decoding -/

/-- The most bytes a body is decoded to. -/
def decodedCap : Nat := 32 * 2 ^ 20

structure Decoded where
  bytes : List UInt8
  error : Option String

section Decoding

-- What the reader of an encoding gives, and the error it ends with.
variable (inflate : String → List UInt8 → List UInt8 × Option String)

/-- Best effort: a body that was cut off still inflates up to the cut. -/
def decode (data : List UInt8) (encoding : Option String) : Decoded :=
  match encoding with
  | none => { bytes := data, error := none }
  | some encoding =>
      if ["gzip", "x-gzip", "deflate", "br"].contains encoding.toLower then
        let (read, error) := inflate encoding.toLower data
        let bytes := read.take decodedCap
        { bytes
          error :=
            if decodedCap ≤ bytes.length then some "decoded body cut at 32 MiB"
            else
              error.bind fun error =>
                if bytes.isEmpty then some ("couldn't decode " ++ encoding ++ ": " ++ error)
                else none }
      else
        { bytes := data
          error := some (encoding.toLower ++ " isn't decoded; showing it as sent") }

/-- UTF-8 with no nulls. A body cut off at the cap may end within a character. -/
def looksLikeText (bytes : List UInt8) : Bool := (Multipart.textOf bytes).isSome

/-- How bodies are read when they end. -/
def reading : Contents where
  looksLikeText data encoding := looksLikeText (decode inflate data encoding).bytes
  parseMultipart data boundary := Multipart.parseMultipart data boundary false

end Decoding

/-! ## Chunks -/

namespace Captured

/-- The body is kept, for now or for good. -/
def Kept (captured : Captured) : Prop := ∀ why, captured.keep ≠ .drop why

/-- What is kept of some bytes. -/
structure Holds (captured : Captured) (bytes : List UInt8) : Prop where
  size : captured.size = bytes.length
  data : captured.Kept → captured.data = bytes.take bodyCap
  truncated : captured.Kept → (captured.truncated ↔ bodyCap < bytes.length)
  dropped : ¬captured.Kept → captured.data = [] ∧ captured.truncated = false
  parts : captured.parts = []

theorem holds_new (mode : BodyMode) (headers : Headers) : (new mode headers).Holds [] where
  size := rfl
  data := fun _ => rfl
  truncated := fun _ => by simp [new]
  dropped := fun _ => ⟨rfl, rfl⟩
  parts := rfl

variable {captured : Captured}

theorem push_of_kept (kept : captured.Kept) (chunk : List UInt8) :
    captured.push chunk =
      { captured with
        state := .streaming
        size := captured.size + chunk.length
        truncated := captured.truncated || decide (bodyCap - captured.data.length < chunk.length)
        data := captured.data ++ chunk.take (bodyCap - captured.data.length) } := by
  cases kind : captured.keep with
  | drop why => exact absurd kind (kept why)
  | full => simp only [push, kind]
  | sniff => simp only [push, kind]

theorem push_of_dropped (dropped : ¬captured.Kept) (chunk : List UInt8) :
    captured.push chunk =
      { captured with state := .streaming, size := captured.size + chunk.length } := by
  simp only [Kept, not_forall, not_not] at dropped
  obtain ⟨why, drops⟩ := dropped
  simp only [push, drops]

@[simp]
theorem keep_push (captured : Captured) (chunk : List UInt8) :
    (captured.push chunk).keep = captured.keep := by
  by_cases kept : captured.Kept
  · rw [push_of_kept kept]
  · rw [push_of_dropped kept]

theorem kept_push {chunk : List UInt8} : (captured.push chunk).Kept ↔ captured.Kept := by
  rw [Kept, Kept, keep_push]

/-- One chunk more. -/
theorem Holds.push {bytes : List UInt8} (holds : captured.Holds bytes) (chunk : List UInt8) :
    (captured.push chunk).Holds (bytes ++ chunk) := by
  by_cases kept : captured.Kept
  · have data := holds.data kept
    have room : bodyCap - captured.data.length = bodyCap - bytes.length := by
      rw [data, List.length_take]
      omega
    refine ⟨?_, fun _ => ?_, fun _ => ?_, fun dropped => ?_, ?_⟩
    · rw [push_of_kept kept, List.length_append, ← holds.size]
    · rw [push_of_kept kept, List.take_append, ← data, room]
    · rw [push_of_kept kept, room, List.length_append, Bool.or_eq_true, decide_eq_true_eq,
        holds.truncated kept]
      omega
    · exact absurd (kept_push.mpr kept) dropped
    · rw [push_of_kept kept, holds.parts]
  · refine ⟨?_, fun kept_after => ?_, fun kept_after => ?_, fun _ => ?_, ?_⟩
    · rw [push_of_dropped kept, List.length_append, ← holds.size]
    · exact absurd (kept_push.mp kept_after) kept
    · exact absurd (kept_push.mp kept_after) kept
    · rw [push_of_dropped kept]
      exact holds.dropped kept
    · rw [push_of_dropped kept, holds.parts]

/-- Any number of chunks more. -/
theorem Holds.foldl_push {bytes : List UInt8} (holds : captured.Holds bytes)
    (chunks : List (List UInt8)) :
    (chunks.foldl Captured.push captured).Holds (bytes ++ chunks.flatten) := by
  induction chunks generalizing captured bytes with
  | nil => simpa using holds
  | cons chunk chunks ih =>
      rw [List.flatten_cons, ← List.append_assoc]
      exact ih (holds.push chunk)

/-! ## Text that is cut off -/

/-- The longest front of a text that has no more than so many bytes. -/
structure Longest (room : Nat) (text front : List Char) : Prop where
  starts : front <+: text
  fits : (Utf8.encode front).length ≤ room
  longest : ∀ other, other <+: text → (Utf8.encode other).length ≤ room → other <+: front

theorem longest_fitting (room : Nat) (text : List Char) :
    Longest room text (Utf8.fitting room text) where
  starts := Utf8.fitting_prefix room text
  fits := Utf8.length_encode_fitting_le room text
  longest := fun _ => Utf8.prefix_fitting

theorem textOf_take {text : List Char} (clean : '\x00' ∉ text) (room : Nat) :
    Multipart.textOf ((Utf8.encode text).take room) = some (Utf8.fitting room text) := by
  have whole : '\x00' ∉ Utf8.fitting room text := fun member =>
    clean ((Utf8.fitting_prefix room text).subset member)
  rw [Multipart.textOf, Utf8.fromUtf8_take, Option.filter_some_pos]
  simpa using whole

/-- What turns out to be text stays kept. -/
theorem keep_finish {inflate : String → List UInt8 → List UInt8 × Option String}
    (plain : captured.contentEncoding = none) (text : looksLikeText captured.data)
    (state : BodyState) (mode : BodyMode) :
    (captured.finish (reading inflate) state mode).keep = captured.keep := by
  have judged : (reading inflate).looksLikeText captured.data captured.contentEncoding := by
    rw [plain]
    exact text
  simp only [finish, judged, Bool.not_true, Bool.and_false, Bool.false_eq_true, if_false]
  split_ifs
  · split <;> rfl
  · rfl

/-- What is to be captured of a body, before it ends. -/
structure WirePrefix (inflate : String → List UInt8 → List UInt8 × Option String)
    (captured : Captured) (body : List UInt8) : Prop where
  size : captured.size = body.length
  data : captured.Kept → captured.data = body.take bodyCap
  truncated : captured.Kept → (captured.truncated ↔ bodyCap < body.length)
  dropped : ¬captured.Kept → captured.data = []
  weight : captured.weight ≤ bodyCap
  text : captured.Kept → ∀ text, body = Utf8.encode text → '\x00' ∉ text →
    ∃ front, Multipart.textOf captured.data = some front ∧ Longest bodyCap text front
  judged : captured.Kept → captured.contentEncoding = none →
    ∀ text, body = Utf8.encode text → '\x00' ∉ text → ∀ state mode,
      (captured.finish (reading inflate) state mode).keep = captured.keep

/-- However a body is cut into chunks, what is captured of it is its front. -/
theorem wire_prefix (inflate : String → List UInt8 → List UInt8 × Option String) (mode : BodyMode)
    (headers : Headers) (chunks : List (List UInt8)) :
    WirePrefix inflate (chunks.foldl push (new mode headers)) chunks.flatten := by
  have holds := (holds_new mode headers).foldl_push chunks
  rw [List.nil_append] at holds
  generalize chunks.foldl push (new mode headers) = captured at holds
  have short : captured.data.length ≤ bodyCap := by
    by_cases kept : captured.Kept
    · rw [holds.data kept]
      exact List.length_take_le _ _
    · rw [(holds.dropped kept).1]
      exact Nat.zero_le _
  have text (kept : captured.Kept) (text : List Char) (whole : chunks.flatten = Utf8.encode text)
      (clean : '\x00' ∉ text) :
      Multipart.textOf captured.data = some (Utf8.fitting bodyCap text) := by
    rw [holds.data kept, whole, textOf_take clean]
  exact
    { size := holds.size
      data := holds.data
      truncated := holds.truncated
      dropped := fun kept => (holds.dropped kept).1
      weight := by simpa [weight, holds.parts] using short
      text := fun kept chars whole clean =>
        ⟨_, text kept chars whole clean, longest_fitting bodyCap chars⟩
      judged := fun kept plain chars whole clean =>
        keep_finish plain (by rw [looksLikeText, text kept chars whole clean]; rfl) }

end Captured

end Traffic
end Fghj
