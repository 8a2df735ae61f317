import Fghj.CapturedBodies
import Fghj.StoredForms

/-!
# Recording in text mode

In text mode a form is kept as its fields and the shape of its files, and a body of a binary type
not at all. What is kept then does not depend on the contents of the files, unless the delimiter
stands in one of them or the body comes encoded: then it is taken apart in the wrong places, or
kept whole.
-/

namespace Fghj
namespace Traffic

open Multipart (Boundary Sent Alike Quiet crlf behind readBehind)

/-! ## What is given out -/

/-- A body as it is shown. -/
structure BodyView where
  size : Nat
  contentType : Option String
  contentEncoding : Option String
  state : BodyState
  truncated : Bool
  omitted : Option Omitted
  text : Option String := none
  binary : Bool := false
  decodeError : Option String := none
  parts : Option (List Part) := none

namespace Captured

variable (inflate : String → List UInt8 → List UInt8 × Option String) (captured : Captured)

def omitted : Option Omitted :=
  match captured.keep with
  | .drop why => some why
  | _ => none

def view : BodyView :=
  let view : BodyView :=
    { size := captured.size
      contentType := captured.contentType
      contentEncoding := captured.contentEncoding
      state := captured.state
      truncated := captured.truncated
      omitted := captured.omitted
      parts := if captured.parts.isEmpty then none else some captured.parts }
  if captured.omitted.isSome || captured.data.isEmpty then view
  else
    let decoded := decode inflate captured.data captured.contentEncoding
    let view := { view with decodeError := decoded.error }
    let parts := (captured.contentType.bind multipartBoundary).elim [] fun boundary =>
      Multipart.parseMultipart decoded.bytes boundary true
    if !parts.isEmpty then { view with parts := some parts }
    else
      match Multipart.textOf decoded.bytes with
      | some text => { view with text := some (String.ofList text) }
      | none => { view with binary := true }

/-- The decoded body and its type, if it was kept. -/
def body : Option (List UInt8 × Option String) :=
  if captured.omitted.isSome || captured.data.isEmpty then none
  else some ((decode inflate captured.data captured.contentEncoding).bytes, captured.contentType)

end Captured

/-- What a recording holds and gives out. -/
structure Outcome where
  data : Data
  request : BodyView
  response : BodyView
  requestBody : Option (List UInt8 × Option String)
  responseBody : Option (List UInt8 × Option String)
  line : List UInt8

section Recording

variable (inflate : String → List UInt8 → List UInt8 × Option String)

/-- `ship` writes out whatever is held. -/
def outcome (ship : Data → List UInt8) (data : Data) : Outcome where
  data
  request := data.request.view inflate
  response := data.response.view inflate
  requestBody := data.request.body inflate
  responseBody := data.response.body inflate
  line := ship data

/-- A body that came in chunks and has ended. -/
def captured (mode : BodyMode) (headers : Headers) (chunks : List (List UInt8))
    (state : BodyState) : Captured :=
  (chunks.foldl Captured.push (Captured.new mode headers)).finish (reading inflate) state mode

/-- The exchange with that body on one side. -/
def Data.record (data : Data) (side : Side) (headers : Headers) (chunks : List (List UInt8))
    (state : BodyState) : Data :=
  let captured := captured inflate data.mode headers chunks state
  let data :=
    match side with
    | .request => { data with request := captured }
    | .response => { data with response := captured }
  { data with accounted := if data.inRing then data.weight else data.accounted }

end Recording

/-! ## Bodies that differ in what is not to be kept -/

def contentTypeOf (headers : Headers) : Option String := headerStr headers "content-type"

/-- The encoding of a body, if it has one. -/
def encodingOf (headers : Headers) : Option String :=
  (headerStr headers "content-encoding").filter fun encoding => encoding.toLower ≠ "identity"

/-- The type of the body is binary, and neither textual nor that of a form. -/
def Binary (headers : Headers) : Prop :=
  ∃ type ∈ contentTypeOf headers, isBinary (essence type) ∧ ¬isTextual (essence type) ∧
    ¬(essence type).startsWith "multipart/"

/-- Two bodies are forms, under their encoding, that differ in the contents of files only. -/
structure Forms (undo : String → List UInt8 → List UInt8) (headers : Headers)
    (boundary : Boundary) (parts others : List Sent) (body other : List UInt8) : Prop where
  multipart : ∃ type ∈ contentTypeOf headers, (essence type).startsWith "multipart/"
  alike : List.Forall₂ Alike parts others
  apart : ∀ sent ∈ parts ++ others, ¬crlf ++ boundary.delimiter <:+: sent.content
  body : (encodingOf headers).elim body (undo · body) = Multipart.encode boundary parts
  other : (encodingOf headers).elim other (undo · other) = Multipart.encode boundary others

/-- What is stored of a form behind the first delimiter. -/
def roomOf (boundary : Boundary) : Nat := bodyCap - boundary.delimiter.length

/-- A form comes as it is, its boundary is found, and the delimiter stands nowhere in what is stored
of its parts. -/
structure Clear (headers : Headers) (boundary : Boundary) (parts : List Sent) : Prop where
  plain : encodingOf headers = none
  found : (contentTypeOf headers).bind multipartBoundary = some (String.ofList boundary.chars)
  quiet : Quiet boundary (roomOf boundary) parts

/-- The same is stored of two forms, or both are clear and what is stored of them ends in a line
break in both or in neither. -/
def CoveredForms (headers : Headers) (boundary : Boundary) (parts others : List Sent)
    (body other : List UInt8) : Prop :=
  body.take bodyCap = other.take bodyCap ∨
    Clear headers boundary parts ∧ Clear headers boundary others ∧
      (crlf <:+ body.take bodyCap ↔ crlf <:+ other.take bodyCap)

/-! ## What is captured -/

section Captures

variable {inflate : String → List UInt8 → List UInt8 × Option String} {headers : Headers}

theorem classify_binary (binary : Binary headers) :
    classify .text (contentTypeOf headers) = .drop .binary := by
  obtain ⟨type, typed, blob, solid, single⟩ := binary
  have some : essence type ≠ "" := by
    intro empty
    rw [empty] at blob
    exact absurd blob (by decide)
  rw [Option.mem_def.mp typed, classify, Option.map_some]
  simp [some, blob, solid, single]

theorem classify_multipart
    (multipart : ∃ type ∈ contentTypeOf headers, (essence type).startsWith "multipart/") :
    classify .text (contentTypeOf headers) = .full := by
  obtain ⟨type, typed, starts⟩ := multipart
  have some : essence type ≠ "" := by
    intro empty
    rw [empty] at starts
    exact absurd starts (by decide)
  rw [Option.mem_def.mp typed, classify, Option.map_some]
  simp [some, starts]

namespace Captured

/-- Chunks change neither what is to be kept nor what is said of the body. -/
structure Opened (mode : BodyMode) (headers : Headers) (captured : Captured) : Prop where
  keep : captured.keep = classify mode (contentTypeOf headers)
  contentType : captured.contentType = contentTypeOf headers
  contentEncoding : captured.contentEncoding = encodingOf headers

theorem opened_new (mode : BodyMode) (headers : Headers) : Opened mode headers (new mode headers) :=
  ⟨rfl, rfl, rfl⟩

theorem Opened.foldl_push {mode : BodyMode} {captured : Captured}
    (opened : Opened mode headers captured) (chunks : List (List UInt8)) :
    Opened mode headers (chunks.foldl push captured) := by
  induction chunks generalizing captured with
  | nil => exact opened
  | cons chunk chunks ih =>
      refine ih ⟨by rw [keep_push, opened.keep], ?_, ?_⟩
      all_goals
        by_cases kept : captured.Kept
        · rw [push_of_kept kept]
          first | exact opened.contentType | exact opened.contentEncoding
        · rw [push_of_dropped kept]
          first | exact opened.contentType | exact opened.contentEncoding

/-- How a body ends does not depend on the state it was in. -/
theorem finish_congr {contents : Contents} {captured other : Captured}
    (keep : captured.keep = other.keep) (data : captured.data = other.data)
    (size : captured.size = other.size) (truncated : captured.truncated = other.truncated)
    (contentType : captured.contentType = other.contentType)
    (contentEncoding : captured.contentEncoding = other.contentEncoding)
    (parts : captured.parts = other.parts) (state : BodyState) (mode : BodyMode) :
    captured.finish contents state mode = other.finish contents state mode := by
  obtain ⟨_, _, _, _, _, _, _, _⟩ := captured
  obtain ⟨_, _, _, _, _, _, _, _⟩ := other
  subst keep data size truncated contentType contentEncoding parts
  rfl

end Captured

/-- What is captured of a body before it ends. -/
theorem holds_chunks (mode : BodyMode) (headers : Headers) (chunks : List (List UInt8)) :
    (chunks.foldl Captured.push (Captured.new mode headers)).Holds chunks.flatten := by
  simpa using (Captured.holds_new mode headers).foldl_push chunks

/-- What is captured depends on the size of a body, and on what is stored of it if it is kept. -/
theorem captured_eq {mode : BodyMode} {chunks others : List (List UInt8)}
    (sizes : chunks.flatten.length = others.flatten.length)
    (stored : (∀ why, classify mode (contentTypeOf headers) ≠ .drop why) →
      chunks.flatten.take bodyCap = others.flatten.take bodyCap) (state : BodyState) :
    captured inflate mode headers chunks state = captured inflate mode headers others state := by
  have opened := (Captured.opened_new mode headers).foldl_push chunks
  have other_opened := (Captured.opened_new mode headers).foldl_push others
  have holds := holds_chunks mode headers chunks
  have other_holds := holds_chunks mode headers others
  have keep := opened.keep.trans other_opened.keep.symm
  have contents : (chunks.foldl Captured.push (Captured.new mode headers)).data =
        (others.foldl Captured.push (Captured.new mode headers)).data ∧
      (chunks.foldl Captured.push (Captured.new mode headers)).truncated =
        (others.foldl Captured.push (Captured.new mode headers)).truncated := by
    by_cases kept : ∀ why, classify mode (contentTypeOf headers) ≠ .drop why
    · have first : (chunks.foldl Captured.push (Captured.new mode headers)).Kept := by
        rw [Captured.Kept, opened.keep]
        exact kept
      have second : (others.foldl Captured.push (Captured.new mode headers)).Kept := by
        rw [Captured.Kept, other_opened.keep]
        exact kept
      rw [holds.data first, other_holds.data second, stored kept, Bool.eq_iff_iff,
        holds.truncated first, other_holds.truncated second, sizes]
      exact ⟨rfl, Iff.rfl⟩
    · have first : ¬(chunks.foldl Captured.push (Captured.new mode headers)).Kept := by
        rw [Captured.Kept, opened.keep]
        exact kept
      have second : ¬(others.foldl Captured.push (Captured.new mode headers)).Kept := by
        rw [Captured.Kept, other_opened.keep]
        exact kept
      rw [(holds.dropped first).1, (holds.dropped first).2, (other_holds.dropped second).1,
        (other_holds.dropped second).2]
      exact ⟨rfl, rfl⟩
  exact Captured.finish_congr keep contents.1 (by rw [holds.size, other_holds.size, sizes])
    contents.2 (opened.contentType.trans other_opened.contentType.symm)
    (opened.contentEncoding.trans other_opened.contentEncoding.symm)
    (holds.parts.trans other_holds.parts.symm) state mode

/-- What is captured of a body that is kept, apart from its data and its parts. -/
theorem captured_of_full {chunks : List (List UInt8)}
    (full : classify .text (contentTypeOf headers) = .full) (state : BodyState) :
    captured inflate .text headers chunks state =
      { keep := .full
        data := (captured inflate .text headers chunks state).data
        size := chunks.flatten.length
        truncated := decide (bodyCap < chunks.flatten.length)
        state
        contentType := contentTypeOf headers
        contentEncoding := encodingOf headers
        parts := (captured inflate .text headers chunks state).parts } ∧
      (captured inflate .text headers chunks state).parts =
        (if (encodingOf headers).isNone then
          ((contentTypeOf headers).bind multipartBoundary).elim [] fun boundary =>
            Multipart.parseMultipart (chunks.flatten.take bodyCap) boundary false
        else []) ∧
      (captured inflate .text headers chunks state).data =
        if (captured inflate .text headers chunks state).parts.isEmpty then
          chunks.flatten.take bodyCap
        else [] := by
  have opened := (Captured.opened_new .text headers).foldl_push chunks
  have holds := holds_chunks .text headers chunks
  have keep := opened.keep.trans full
  have kept : (chunks.foldl Captured.push (Captured.new .text headers)).Kept := by
    rw [Captured.Kept, keep]
    intro reason wrong
    cases wrong
  have truncated : decide (bodyCap < chunks.flatten.length) =
      (chunks.foldl Captured.push (Captured.new .text headers)).truncated := by
    rw [Bool.eq_iff_iff, decide_eq_true_eq, holds.truncated kept]
  rw [truncated, ← holds.data kept, ← holds.size, captured]
  generalize chunks.foldl Captured.push (Captured.new .text headers) = captured at opened holds keep
  cases encoding : encodingOf headers with
  | some encoding =>
      simp [Captured.finish, keep, opened.contentEncoding, opened.contentType, encoding,
        holds.parts]
  | none =>
      cases found : (contentTypeOf headers).bind multipartBoundary with
      | none =>
          simp [Captured.finish, keep, opened.contentEncoding, opened.contentType, encoding, found,
            holds.parts]
      | some boundary =>
          simp [Captured.finish, keep, opened.contentEncoding, opened.contentType, encoding, found,
            reading]

/-- A form that is encoded is kept as it came. -/
theorem data_of_encoded {chunks : List (List UInt8)}
    (full : classify .text (contentTypeOf headers) = .full) (encoded : encodingOf headers ≠ none)
    (state : BodyState) :
    (captured inflate .text headers chunks state).data = chunks.flatten.take bodyCap := by
  obtain ⟨-, parts, data⟩ := @captured_of_full inflate headers chunks full state
  rw [if_neg (by simpa using encoded)] at parts
  rw [data, parts]
  rfl

theorem length_delimiter_le (boundary : Boundary) : boundary.delimiter.length ≤ bodyCap := by
  have allowed := boundary.allowed
  simp only [Bool.and_eq_true, decide_eq_true_eq] at allowed
  have short : boundary.dashes.length ≤ 72 := by
    have few : boundary.chars.length ≤ 70 := allowed.1.1.2
    rw [Boundary.dashes, List.length_append]
    change 2 + _ ≤ 72
    omega
  rw [Boundary.delimiter, Utf8.length_encode_ascii boundary.ascii, bodyCap]
  omega

/-- What is stored of a form: a delimiter and what follows it. -/
theorem take_encode (boundary : Boundary) (parts : List Sent) :
    (Multipart.encode boundary parts).take bodyCap =
      boundary.delimiter ++ (behind boundary parts).take (roomOf boundary) := by
  rw [Multipart.encode_eq, List.take_append, List.take_of_length_le (length_delimiter_le boundary),
    roomOf]

theorem ends_encode (boundary : Boundary) (parts : List Sent) :
    crlf <:+ (Multipart.encode boundary parts).take bodyCap ↔
      crlf <:+ (behind boundary parts).take (roomOf boundary) := by
  rw [take_encode]
  exact Multipart.crlf_suffix_delimiter [] _

end Captures

section TextMode

variable {inflate : String → List UInt8 → List UInt8 × Option String}
  {undo : String → List UInt8 → List UInt8} {headers : Headers} {boundary : Boundary}
  {parts otherParts : List Sent} {chunks others : List (List UInt8)}

/-- Of a form that comes as it is, the parts are captured that are read of what is stored. -/
theorem parts_of_clear (full : classify .text (contentTypeOf headers) = .full)
    (plain : encodingOf headers = none)
    (found : (contentTypeOf headers).bind multipartBoundary = some (String.ofList boundary.chars))
    (body : chunks.flatten = Multipart.encode boundary parts) (state : BodyState) :
    (captured inflate .text headers chunks state).parts =
      readBehind boundary false ((behind boundary parts).take (roomOf boundary)) := by
  obtain ⟨-, read, -⟩ := @captured_of_full inflate headers chunks full state
  rw [read, plain, found, body, take_encode]
  exact Multipart.parseMultipart_delimiter _

/-- The same is captured of two forms that are covered. -/
theorem captured_of_covered (sizes : chunks.flatten.length = others.flatten.length)
    (forms : Forms undo headers boundary parts otherParts chunks.flatten others.flatten)
    (covered : CoveredForms headers boundary parts otherParts chunks.flatten others.flatten)
    (state : BodyState) :
    captured inflate .text headers chunks state = captured inflate .text headers others state := by
  rcases covered with stored | ⟨clear, other_clear, ends⟩
  · exact captured_eq sizes (fun _ => stored) state
  · have full := classify_multipart forms.multipart
    have body : chunks.flatten = Multipart.encode boundary parts := by
      simpa only [clear.plain, Option.elim_none] using forms.body
    have other : others.flatten = Multipart.encode boundary otherParts := by
      simpa only [clear.plain, Option.elim_none] using forms.other
    have read := @parts_of_clear inflate _ _ _ _ full clear.plain clear.found body state
    have other_read := @parts_of_clear inflate _ _ _ _ full clear.plain clear.found other state
    obtain ⟨first, -, data⟩ := @captured_of_full inflate headers chunks full state
    obtain ⟨second, -, other_data⟩ := @captured_of_full inflate headers others full state
    rw [body, other, ends_encode, ends_encode] at ends
    have same := (Multipart.read_eq_iff forms.alike clear.quiet other_clear.quiet).mpr ends
    have parts_eq := read.trans (same.trans other_read.symm)
    have data_eq : (captured inflate .text headers chunks state).data =
        (captured inflate .text headers others state).data := by
      rw [data, other_data, ← parts_eq]
      split
      · rename_i nothing
        rw [List.isEmpty_iff, read] at nothing
        rw [body, other, take_encode, take_encode,
          Multipart.stored_eq_of_read_nil forms.alike clear.quiet nothing]
      · rfl
    rw [first, second, data_eq, parts_eq, sizes]

/-- Two forms of which the same is captured are covered if one of them is clear or they are
encoded. -/
theorem covered_of_captured
    (forms : Forms undo headers boundary parts otherParts chunks.flatten others.flatten)
    (clear : encodingOf headers = none → Clear headers boundary parts) {state : BodyState}
    (same : captured inflate .text headers chunks state =
      captured inflate .text headers others state) :
    CoveredForms headers boundary parts otherParts chunks.flatten others.flatten := by
  have full := classify_multipart forms.multipart
  by_cases plain : encodingOf headers = none
  · right
    have clear := clear plain
    have body : chunks.flatten = Multipart.encode boundary parts := by
      simpa only [plain, Option.elim_none] using forms.body
    have other : others.flatten = Multipart.encode boundary otherParts := by
      simpa only [plain, Option.elim_none] using forms.other
    have read := @parts_of_clear inflate _ _ _ _ full plain clear.found body state
    have other_read := @parts_of_clear inflate _ _ _ _ full plain clear.found other state
    have parts_eq := read.symm.trans ((congrArg Captured.parts same).trans other_read)
    have quiet := Multipart.quiet_of_read_eq forms.alike clear.quiet parts_eq
    have ends := (Multipart.read_eq_iff forms.alike clear.quiet quiet).mp parts_eq
    refine ⟨clear, ⟨plain, clear.found, quiet⟩, ?_⟩
    rwa [body, other, ends_encode, ends_encode]
  · left
    rw [← @data_of_encoded inflate headers chunks full plain state,
      ← @data_of_encoded inflate headers others full plain state, same]

/-- What a recording holds and gives out tells what was captured. -/
theorem outcome_eq_iff {ship : Data → List UInt8} {data : Data} {side : Side}
    (text : data.mode = .text) {state : BodyState} :
    outcome inflate ship (data.record inflate side headers chunks state) =
        outcome inflate ship (data.record inflate side headers others state) ↔
      captured inflate .text headers chunks state =
        captured inflate .text headers others state := by
  constructor
  · intro same
    have held := congrArg Outcome.data same
    cases side with
    | request =>
        have request := congrArg Data.request held
        change captured inflate data.mode headers chunks state =
          captured inflate data.mode headers others state at request
        rwa [text] at request
    | response =>
        have response := congrArg Data.response held
        change captured inflate data.mode headers chunks state =
          captured inflate data.mode headers others state at response
        rwa [text] at response
  · intro same
    unfold Data.record
    rw [text, same]

/-- In text mode, what a recording holds and gives out does not depend on the bytes of a body of a
binary type. Of two forms that differ in the contents of files only it is the same if they are
covered, and only then if one of them is clear or they are encoded. -/
theorem keeps_no_files (inflate : String → List UInt8 → List UInt8 × Option String)
    (undo : String → List UInt8 → List UInt8) (ship : Data → List UInt8) (data : Data)
    (text : data.mode = .text) (side : Side) (headers : Headers)
    (chunks others : List (List UInt8))
    (sizes : chunks.flatten.length = others.flatten.length) (state : BodyState) :
    (Binary headers →
      outcome inflate ship (data.record inflate side headers chunks state) =
        outcome inflate ship (data.record inflate side headers others state)) ∧
      ∀ boundary parts otherParts,
        Forms undo headers boundary parts otherParts chunks.flatten others.flatten →
          (CoveredForms headers boundary parts otherParts chunks.flatten others.flatten →
            outcome inflate ship (data.record inflate side headers chunks state) =
              outcome inflate ship (data.record inflate side headers others state)) ∧
          ((encodingOf headers = none → Clear headers boundary parts) →
            outcome inflate ship (data.record inflate side headers chunks state) =
              outcome inflate ship (data.record inflate side headers others state) →
            CoveredForms headers boundary parts otherParts chunks.flatten others.flatten) := by
  refine ⟨fun binary => ?_, fun boundary parts otherParts forms => ⟨fun covered => ?_, ?_⟩⟩
  · refine (outcome_eq_iff text).mpr (captured_eq sizes (fun kept => ?_) state)
    exact absurd (classify_binary binary) (kept .binary)
  · exact (outcome_eq_iff text).mpr (captured_of_covered sizes forms covered state)
  · intro clear same
    exact covered_of_captured forms clear ((outcome_eq_iff text).mp same)

/-- The headers of a form with the boundary `B`. -/
def formHeaders : Headers := [("content-type", "multipart/form-data; boundary=B")]

/-- A remark and a file with some content. -/
def upload (content : List UInt8) : List Sent :=
  [Multipart.remark, ⟨some "photo".toList, some "a.png".toList, none, [], content, by decide⟩]

def begun : Data :=
  { startedAtMs := 0, mode := .text, requestHeaders := formHeaders, request := .pending }

theorem forms_upload {content other : List UInt8} (sizes : other.length = content.length)
    (apart : ¬crlf ++ Multipart.letter.delimiter <:+: content)
    (other_apart : ¬crlf ++ Multipart.letter.delimiter <:+: other) :
    Forms (fun _ body => body) formHeaders Multipart.letter (upload content) (upload other)
      (Multipart.encode Multipart.letter (upload content))
      (Multipart.encode Multipart.letter (upload other)) where
  multipart := ⟨"multipart/form-data; boundary=B", by decide +kernel, by decide +kernel⟩
  alike := .cons ⟨rfl, rfl, rfl, rfl, rfl, fun _ => rfl⟩
    (.cons ⟨rfl, rfl, rfl, rfl, sizes, nofun⟩ .nil)
  apart := by
    have remark : ¬crlf ++ Multipart.letter.delimiter <:+: Multipart.remark.content := by decide
    exact List.forall_mem_append.mpr ⟨List.forall_mem_cons.mpr ⟨remark,
      List.forall_mem_singleton.mpr apart⟩, List.forall_mem_cons.mpr ⟨remark,
        List.forall_mem_singleton.mpr other_apart⟩⟩
  body := rfl
  other := rfl

/-- Two files of two bytes leave the same behind. -/
theorem uploads_alike : outcome (fun _ _ => ([], none)) (fun _ => [])
      (begun.record (fun _ _ => ([], none)) .request formHeaders
        [Multipart.encode Multipart.letter (upload [1, 2])] .done) =
    outcome (fun _ _ => ([], none)) (fun _ => [])
      (begun.record (fun _ _ => ([], none)) .request formHeaders
        [Multipart.encode Multipart.letter (upload [3, 4])] .done) := by
  have forms := @forms_upload [1, 2] [3, 4] rfl (by decide) (by decide)
  have clear : Clear formHeaders Multipart.letter (upload [1, 2]) :=
    ⟨by decide +kernel, by decide +kernel, by decide +kernel, by decide +kernel,
      by decide +kernel, by decide +kernel, trivial⟩
  have other_clear : Clear formHeaders Multipart.letter (upload [3, 4]) :=
    ⟨by decide +kernel, by decide +kernel, by decide +kernel, by decide +kernel,
      by decide +kernel, by decide +kernel, trivial⟩
  refine ((keeps_no_files _ (fun _ body => body) _ begun rfl .request formHeaders
    [Multipart.encode Multipart.letter (upload [1, 2])]
    [Multipart.encode Multipart.letter (upload [3, 4])] (by decide +kernel) .done).2
      Multipart.letter (upload [1, 2]) (upload [3, 4]) (by simpa using forms)).1 ?_
  exact .inr ⟨clear, other_clear, by decide⟩

/-- Text that stands in a file behind a delimiter in the middle of a line. -/
def hidden (text : String) : List UInt8 := Utf8.encode ("x--B\r\n\r\n\r\n".toList ++ text.toList)

/-- It is recorded as a field. -/
theorem hidden_kept : ¬∀ (inflate : String → List UInt8 → List UInt8 × Option String)
    (undo : String → List UInt8 → List UInt8) (ship : Data → List UInt8) (data : Data),
    data.mode = .text → ∀ (side : Side) (headers : Headers) (chunks others : List (List UInt8)),
    chunks.flatten.length = others.flatten.length → ∀ (state : BodyState) boundary parts otherParts,
    Forms undo headers boundary parts otherParts chunks.flatten others.flatten →
      outcome inflate ship (data.record inflate side headers chunks state) =
        outcome inflate ship (data.record inflate side headers others state) := by
  intro claim
  have forms := @forms_upload (hidden "secret") (hidden "public") (by decide)
    (by decide) (by decide)
  have same := claim (fun _ _ => ([], none)) (fun _ body => body) (fun _ => []) begun rfl .request
    formHeaders [Multipart.encode Multipart.letter (upload (hidden "secret"))]
    [Multipart.encode Multipart.letter (upload (hidden "public"))] (by decide +kernel) .done
    Multipart.letter (upload (hidden "secret")) (upload (hidden "public")) (by simpa using forms)
  have texts := congrArg (fun outcome => outcome.data.request.parts.map Part.text) same
  have secret : (begun.record (fun _ _ => ([], none)) .request formHeaders
      [Multipart.encode Multipart.letter (upload (hidden "secret"))] .done).request.parts.map
        Part.text = [some "hi", none, some "secret"] := by decide +kernel
  have other : (begun.record (fun _ _ => ([], none)) .request formHeaders
      [Multipart.encode Multipart.letter (upload (hidden "public"))] .done).request.parts.map
        Part.text = [some "hi", none, some "public"] := by decide +kernel
  exact absurd (secret.symm.trans (texts.trans other)) (by decide)

end TextMode

end Traffic
end Fghj
