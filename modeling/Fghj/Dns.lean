import Fghj.Library.Loop
import Fghj.Library.Utf8

/-!
# The queries and responses of the DNS server

A query is read at byte offsets: a header of twelve bytes and one question, whose name is a list of
labels. The response echoes the question and adds one record where an address is given and asked
for.
-/

namespace Fghj
namespace Dns

def typeA : UInt16 := 1
def classIn : UInt16 := 1
def answerTtl : UInt32 := 5

structure Query where
  id : UInt16
  opcode : UInt8
  rd : Bool
  qname : List Char
  qtype : UInt16
  qclass : UInt16
  questionBytes : List UInt8
  deriving DecidableEq

/-- `u16::from_be_bytes` -/
def fromBe (high low : UInt8) : UInt16 := .ofNat (high.toNat * 256 + low.toNat)

/-- `u16::to_be_bytes` -/
def toBe (value : UInt16) : List UInt8 := [.ofNat (value.toNat / 256), .ofNat (value.toNat % 256)]

/-- `u32::to_be_bytes` -/
def toBe32 (value : UInt32) : List UInt8 :=
  [.ofNat (value.toNat / 16777216), .ofNat (value.toNat / 65536 % 256),
    .ofNat (value.toNat / 256 % 256), .ofNat (value.toNat % 256)]

/-- `buf.get(start..stop)` -/
def get (buf : List UInt8) (start stop : Nat) : Option (List UInt8) :=
  if start ≤ stop ∧ stop ≤ buf.length then some ((buf.drop start).take (stop - start)) else none

/-- How far the labels are read. -/
structure Labels where
  pos : Nat
  labels : List (List Char)

/-- One pass over the labels; it gives up where a label is cut off or is no label. -/
def labelPass (buf : List UInt8) (state : Labels) : Pass Labels (Option Labels) :=
  match buf[state.pos]? with
  | none => .done none
  | some len =>
      if len = 0 then .done (some { state with pos := state.pos + 1 })
      else if len &&& 0xC0 ≠ 0 then .done none
      else
        match get buf (state.pos + 1) (state.pos + 1 + len.toNat) with
        | none => .done none
        | some label =>
            .again ⟨state.pos + 1 + len.toNat, state.labels ++ [Utf8.fromUtf8Lossy label]⟩

/-- What follows the labels. -/
def finishQuery (buf : List UInt8) (id : UInt16) (opcode : UInt8) (rd : Bool) (read : Labels) :
    Option Query := do
  let t0 ← buf[read.pos]?
  let t1 ← buf[read.pos + 1]?
  let c0 ← buf[read.pos + 2]?
  let c1 ← buf[read.pos + 3]?
  let questionBytes ← get buf 12 (read.pos + 4)
  return ⟨id, opcode, rd, ['.'].intercalate read.labels, fromBe t0 t1, fromBe c0 c1, questionBytes⟩

/-- The query of a datagram, if it is one that is answered; without any result where a byte of the
header is read that is not there, or where the labels have no end. -/
def parseQuery (buf : List UInt8) : Option (Option Query) :=
  if buf.length < 12 then some none
  else do
    let b0 ← buf[0]?
    let b1 ← buf[1]?
    let flags0 ← buf[2]?
    let b4 ← buf[4]?
    let b5 ← buf[5]?
    if fromBe b4 b5 ≠ 1 then return none
    let read ← Pass.loop (labelPass buf) (buf.length + 1) ⟨12, []⟩
    return read.bind (finishQuery buf (fromBe b0 b1) ((flags0 >>> 3) &&& 0x0F) (flags0 &&& 1 ≠ 0))

/-- The octets of an address. -/
structure Ipv4 where
  a : UInt8
  b : UInt8
  c : UInt8
  d : UInt8
  deriving DecidableEq

def Ipv4.octets (address : Ipv4) : List UInt8 := [address.a, address.b, address.c, address.d]

/-- The record with the address, whose name points back to the question. -/
def answerRecord (address : Ipv4) : List UInt8 :=
  [0xC0, 0x0C] ++ toBe typeA ++ toBe classIn ++ toBe32 answerTtl ++ toBe 4 ++ address.octets

/-- The address that is answered with. -/
def answerHit (query : Query) (answer : Option Ipv4) : Option Ipv4 :=
  if query.qtype = typeA ∧ query.qclass = classIn then answer else none

/-- The first byte of flags: a response, authoritative for its own zone only. -/
def responseFlags (opcode : UInt8) (zoneHit rd : Bool) : UInt8 :=
  (0x80 : UInt8) ||| ((opcode &&& 0x0F) <<< 3) ||| (if zoneHit then 0x04 else 0) |||
    (if rd then 0x01 else 0)

def buildResponse (query : Query) (answer : Option Ipv4) : List UInt8 :=
  let rcode : UInt8 := if query.opcode ≠ 0 then 4 else if answer.isSome then 0 else 3
  let hit := answerHit query answer
  toBe query.id ++ [responseFlags query.opcode answer.isSome query.rd, rcode &&& 0x0F] ++
    toBe 1 ++ toBe (if hit.isSome then 1 else 0) ++
    toBe 0 ++ toBe 0 ++ query.questionBytes ++ (hit.map answerRecord).getD []

/-! ## Encoding a question -/

/-- A label and its length before it. -/
def encodeLabel (label : List UInt8) : List UInt8 := .ofNat label.length :: label

def encodeQuestion (labels : List (List UInt8)) (qtype qclass : UInt16) : List UInt8 :=
  labels.flatMap encodeLabel ++ [0] ++ toBe qtype ++ toBe qclass

def queryFlags (opcode : UInt8) (rd : Bool) : UInt8 := (opcode <<< 3) ||| (if rd then 0x01 else 0)

/-- The encoder of the tests, for any opcode, recursion bit and class. -/
def encodeQuery (id : UInt16) (opcode : UInt8) (rd : Bool) (labels : List (List Char))
    (qtype qclass : UInt16) : List UInt8 :=
  toBe id ++ [queryFlags opcode rd, 0x00] ++ toBe 1 ++ toBe 0 ++ toBe 0 ++
    toBe 0 ++ encodeQuestion (labels.map Utf8.encode) qtype qclass

/-! ## Bytes -/

theorem fromBe_toBe (value : UInt16) :
    fromBe (.ofNat (value.toNat / 256)) (.ofNat (value.toNat % 256)) = value := by
  have small := value.toNat_lt
  rw [fromBe, Utf8.toNat_ofNat_of_lt (by omega), Utf8.toNat_ofNat_of_lt (by omega),
    Nat.div_add_mod']
  exact UInt16.ofNat_toNat

theorem toBe_fromBe (high low : UInt8) : toBe (fromBe high low) = [high, low] := by
  have upper := high.toNat_lt
  have lower := low.toNat_lt
  have whole : (fromBe high low).toNat = high.toNat * 256 + low.toNat :=
    UInt16.toNat_ofNat_of_lt' (by rw [UInt16.size]; omega)
  have first : (high.toNat * 256 + low.toNat) / 256 = high.toNat := by omega
  have second : (high.toNat * 256 + low.toNat) % 256 = low.toNat := by omega
  rw [toBe, whole, first, second, UInt8.ofNat_toNat, UInt8.ofNat_toNat]

theorem length_toBe (value : UInt16) : (toBe value).length = 2 := rfl

/-- The two top bits of a length are clear if it is below 64. -/
theorem and_top_bits (len : UInt8) : len &&& 0xC0 = 0 ↔ len.toNat < 64 := by
  have table : ∀ n < 256, UInt8.ofNat n &&& 0xC0 = 0 ↔ n < 64 := by decide +kernel
  have here := table len.toNat len.toNat_lt
  rwa [UInt8.ofNat_toNat] at here

variable {opcode : UInt8}

theorem opcode_responseFlags (small : opcode.toNat < 16) (zoneHit rd : Bool) :
    (responseFlags opcode zoneHit rd >>> 3) &&& 0x0F = opcode ∧
      (decide (responseFlags opcode zoneHit rd &&& 1 ≠ 0)) = rd := by
  have table : ∀ n < 16, ∀ zoneHit rd,
      (responseFlags (.ofNat n) zoneHit rd >>> 3) &&& 0x0F = .ofNat n ∧
        (decide (responseFlags (.ofNat n) zoneHit rd &&& 1 ≠ 0)) = rd := by decide
  have here := table opcode.toNat small zoneHit rd
  rwa [UInt8.ofNat_toNat] at here

theorem opcode_queryFlags (small : opcode.toNat < 16) (rd : Bool) :
    (queryFlags opcode rd >>> 3) &&& 0x0F = opcode ∧
      (decide (queryFlags opcode rd &&& 1 ≠ 0)) = rd := by
  have table : ∀ n < 16, ∀ rd, (queryFlags (.ofNat n) rd >>> 3) &&& 0x0F = .ofNat n ∧
      (decide (queryFlags (.ofNat n) rd &&& 1 ≠ 0)) = rd := by decide
  have here := table opcode.toNat small rd
  rwa [UInt8.ofNat_toNat] at here

theorem opcode_lt (flags : UInt8) : ((flags >>> 3) &&& 0x0F).toNat < 16 := by
  have table : ∀ n < 256, ((UInt8.ofNat n >>> 3) &&& 0x0F).toNat < 16 := by decide +kernel
  have here := table flags.toNat flags.toNat_lt
  rwa [UInt8.ofNat_toNat] at here

theorem get_append (front middle back : List UInt8) :
    get (front ++ middle ++ back) front.length (front.length + middle.length) = some middle := by
  rw [get, if_pos (by simp), List.append_assoc, List.drop_left, Nat.add_sub_cancel_left,
    List.take_left]

variable {buf : List UInt8}

theorem get_eq_some {start stop : Nat} {middle : List UInt8}
    (found : get buf start stop = some middle) :
    start ≤ stop ∧ stop ≤ buf.length ∧ middle.length = stop - start ∧
      buf.drop start = middle ++ buf.drop stop := by
  rw [get] at found
  split at found
  · rename_i within
    cases found
    refine ⟨within.1, within.2, ?_, ?_⟩
    · rw [List.length_take, List.length_drop]
      omega
    · have whole := List.take_append_drop (stop - start) (buf.drop start)
      rw [List.drop_drop, Nat.add_sub_cancel' within.1] at whole
      exact whole.symm
  · cases found

/-! ## Labels -/

/-- Labels that can be encoded. -/
def Encodable (labels : List (List UInt8)) : Prop :=
  ∀ label ∈ labels, 0 < label.length ∧ label.length ≤ 63

/-- The text of labels. -/
def texts (labels : List (List UInt8)) : List (List Char) := labels.map Utf8.fromUtf8Lossy

/-- What the labels that are left are, if they are any. -/
def Reads (buf : List UInt8) (state : Labels) (outcome : Option Labels) : Prop :=
  ∀ read, outcome = some read → ∃ labels, Encodable labels ∧
    buf.drop state.pos = labels.flatMap encodeLabel ++ 0 :: buf.drop read.pos ∧
    read.labels = state.labels ++ texts labels ∧
    read.pos = state.pos + (labels.flatMap encodeLabel).length + 1

theorem labelPass_again {state next : Labels} (goesOn : labelPass buf state = .again next) :
    ∃ label, 0 < label.length ∧ label.length ≤ 63 ∧
      buf.drop state.pos = encodeLabel label ++ buf.drop next.pos ∧
      next = ⟨state.pos + 1 + label.length, state.labels ++ [Utf8.fromUtf8Lossy label]⟩ ∧
      next.pos ≤ buf.length := by
  rw [labelPass] at goesOn
  cases here : buf[state.pos]? with
  | none =>
      rw [here] at goesOn
      cases goesOn
  | some len =>
      rw [here] at goesOn
      simp only at goesOn
      split at goesOn
      · cases goesOn
      · rename_i filled
        split at goesOn
        · cases goesOn
        · rename_i short
          cases found : get buf (state.pos + 1) (state.pos + 1 + len.toNat) with
          | none =>
              rw [found] at goesOn
              cases goesOn
          | some label =>
              rw [found] at goesOn
              cases goesOn
              obtain ⟨-, within, long, rest⟩ := get_eq_some found
              rw [Nat.add_sub_cancel_left] at long
              have positive : len.toNat ≠ 0 := fun zero => filled (UInt8.toNat.inj zero)
              have small := (and_top_bits len).mp (not_not.mp short)
              obtain ⟨inside, at_⟩ := List.getElem?_eq_some_iff.mp here
              refine ⟨label, by omega, by omega, ?_, by rw [long], within⟩
              rw [List.drop_eq_getElem_cons inside, at_, rest, encodeLabel, long,
                UInt8.ofNat_toNat, List.cons_append]

theorem loop_labelPass (buf : List UInt8) {fuel : Nat} {state : Labels}
    (within : state.pos ≤ buf.length) (enough : buf.length - state.pos < fuel) :
    ∃ outcome, Pass.loop (labelPass buf) fuel state = some outcome ∧ Reads buf state outcome := by
  refine Pass.loop_total (fun state => state.pos ≤ buf.length)
    (fun state => buf.length - state.pos) (Reads buf) ?_ ?_ within enough
  · intro state next _ goesOn
    obtain ⟨label, positive, short, rest, rfl, inside⟩ := labelPass_again goesOn
    refine ⟨inside, by simp only at inside ⊢; omega, fun outcome reads read same => ?_⟩
    obtain ⟨labels, sound, whole, told, pos⟩ := reads read same
    refine ⟨label :: labels, ?_, ?_, ?_, ?_⟩
    · exact List.forall_mem_cons.mpr ⟨⟨positive, short⟩, sound⟩
    · rw [rest, whole, List.flatMap_cons, List.append_assoc]
    · simp [told, texts]
    · rw [pos, List.flatMap_cons, List.length_append, encodeLabel, List.length_cons]
      simp only
      omega
  · intro state outcome _ ends read same
    subst same
    rw [labelPass] at ends
    cases here : buf[state.pos]? with
    | none =>
        rw [here] at ends
        cases ends
    | some len =>
        rw [here] at ends
        simp only at ends
        split at ends
        · rename_i zero
          cases ends
          obtain ⟨inside, at_⟩ := List.getElem?_eq_some_iff.mp here
          refine ⟨[], fun _ member => absurd member List.not_mem_nil, ?_, by simp [texts], rfl⟩
          rw [List.drop_eq_getElem_cons inside, at_, zero]
          rfl
        · split at ends
          · cases ends
          · split at ends <;> cases ends

theorem labelPass_encoded {label : List UInt8} (positive : 0 < label.length)
    (short : label.length ≤ 63) (front back : List UInt8) (labels : List (List Char)) :
    labelPass (front ++ (encodeLabel label ++ back)) ⟨front.length, labels⟩ =
      .again ⟨(front ++ encodeLabel label).length, labels ++ [Utf8.fromUtf8Lossy label]⟩ := by
  have len : (UInt8.ofNat label.length).toNat = label.length := Utf8.toNat_ofNat_of_lt (by omega)
  have here : (front ++ (encodeLabel label ++ back))[front.length]? =
      some (UInt8.ofNat label.length) := by
    rw [List.getElem?_append_right le_rfl, Nat.sub_self]
    rfl
  have filled : UInt8.ofNat label.length ≠ 0 := by
    intro zero
    rw [zero] at len
    exact absurd len.symm positive.ne'
  have clear : ¬UInt8.ofNat label.length &&& 0xC0 ≠ 0 :=
    not_not.mpr ((and_top_bits _).mpr (by omega))
  have found := get_append (front ++ [.ofNat label.length]) label back
  rw [List.length_append, List.length_singleton] at found
  have whole : front ++ (encodeLabel label ++ back) =
      front ++ [.ofNat label.length] ++ label ++ back := by
    simp [encodeLabel]
  rw [labelPass, here]
  simp only [if_neg filled, if_neg clear, len]
  rw [whole, found]
  simp [encodeLabel, Nat.add_comm, Nat.add_left_comm]

theorem labelPass_end (front back : List UInt8) (labels : List (List Char)) :
    labelPass (front ++ 0 :: back) ⟨front.length, labels⟩ =
      .done (some ⟨front.length + 1, labels⟩) := by
  have here : (front ++ 0 :: back)[front.length]? = some 0 := by
    rw [List.getElem?_append_right le_rfl, Nat.sub_self]
    rfl
  rw [labelPass, here]
  rfl

theorem loop_encoded {labels : List (List UInt8)} (encodable : Encodable labels)
    (front back : List UInt8) (before : List (List Char)) {fuel : Nat}
    (enough : labels.length < fuel) :
    Pass.loop (labelPass (front ++ (labels.flatMap encodeLabel ++ 0 :: back))) fuel
        ⟨front.length, before⟩ =
      some (some ⟨front.length + (labels.flatMap encodeLabel).length + 1,
        before ++ texts labels⟩) := by
  induction labels generalizing front before fuel with
  | nil =>
      cases fuel with
      | zero => exact absurd enough (Nat.not_lt_zero _)
      | succ fuel =>
          rw [List.flatMap_nil, List.nil_append, Pass.loop_done (labelPass_end ..)]
          simp [texts]
  | cons label labels ih =>
      cases fuel with
      | zero => exact absurd enough (Nat.not_lt_zero _)
      | succ fuel =>
          obtain ⟨⟨positive, short⟩, rest⟩ := List.forall_mem_cons.mp encodable
          have pass := labelPass_encoded positive short front
            (labels.flatMap encodeLabel ++ 0 :: back) before
          have later := @ih rest (front ++ encodeLabel label)
            (before ++ [Utf8.fromUtf8Lossy label]) fuel (Nat.lt_of_succ_lt_succ enough)
          rw [List.append_assoc] at later
          rw [List.flatMap_cons, List.append_assoc, Pass.loop_again pass, later]
          simp [texts, Nat.add_assoc]

theorem length_le_encoded {labels : List (List UInt8)} :
    labels.length ≤ (labels.flatMap encodeLabel).length := by
  induction labels with
  | nil => exact Nat.zero_le _
  | cons label labels ih =>
      rw [List.flatMap_cons, List.length_append, encodeLabel, List.length_cons, List.length_cons]
      omega

/-! ## Queries -/

/-- The query that a header and a question tell. -/
def queryOf (id : UInt16) (flags0 : UInt8) (labels : List (List UInt8)) (qtype qclass : UInt16) :
    Query :=
  ⟨id, (flags0 >>> 3) &&& 0x0F, flags0 &&& 1 ≠ 0, ['.'].intercalate (texts labels), qtype, qclass,
    encodeQuestion labels qtype qclass⟩

theorem length_encodeQuestion (labels : List (List UInt8)) (qtype qclass : UInt16) :
    (encodeQuestion labels qtype qclass).length = (labels.flatMap encodeLabel).length + 5 := by
  simp [encodeQuestion, length_toBe]

theorem finishQuery_encoded (front back : List UInt8) (header : front.length = 12)
    (id : UInt16) (flags0 : UInt8) (labels : List (List UInt8)) (qtype qclass : UInt16) :
    finishQuery (front ++ (encodeQuestion labels qtype qclass ++ back)) id
        ((flags0 >>> 3) &&& 0x0F) (flags0 &&& 1 ≠ 0)
        ⟨front.length + (labels.flatMap encodeLabel).length + 1, texts labels⟩ =
      some (queryOf id flags0 labels qtype qclass) := by
  have question := get_append front (encodeQuestion labels qtype qclass) back
  rw [length_encodeQuestion, List.append_assoc, header] at question
  have whole : front ++ (encodeQuestion labels qtype qclass ++ back) =
      (front ++ labels.flatMap encodeLabel ++ [0]) ++ (toBe qtype ++ toBe qclass ++ back) := by
    simp [encodeQuestion]
  have at_ (k : Nat) : (front ++ (encodeQuestion labels qtype qclass ++ back))[
      12 + (labels.flatMap encodeLabel).length + 1 + k]? =
        (toBe qtype ++ toBe qclass ++ back)[k]? := by
    rw [whole, List.getElem?_append_right (by simp [header]; omega)]
    simp only [List.length_append, List.length_singleton, header, Nat.add_sub_cancel_left]
  rw [finishQuery, header]
  simp only
  rw [at_ 1, at_ 2, at_ 3, ← Nat.add_zero (12 + (labels.flatMap encodeLabel).length + 1), at_ 0,
    Nat.add_zero, show 12 + (labels.flatMap encodeLabel).length + 1 + 4 =
      12 + ((labels.flatMap encodeLabel).length + 5) from rfl, question]
  simp [toBe, fromBe_toBe, queryOf]

/-- A header with one question, the question, and any bytes behind it are a query. -/
theorem parseQuery_encoded {labels : List (List UInt8)} (encodable : Encodable labels)
    (id : UInt16) (flags0 flags1 : UInt8) {counts : List UInt8} (three : counts.length = 6)
    (qtype qclass : UInt16) (back : List UInt8) :
    parseQuery (toBe id ++ [flags0, flags1] ++ toBe 1 ++ counts ++
        (encodeQuestion labels qtype qclass ++ back)) =
      some (some (queryOf id flags0 labels qtype qclass)) := by
  have header : (toBe id ++ [flags0, flags1] ++ toBe 1 ++ counts).length = 12 := by
    simp [length_toBe, three]
  have rest : encodeQuestion labels qtype qclass ++ back =
      labels.flatMap encodeLabel ++ 0 :: (toBe qtype ++ toBe qclass ++ back) := by
    simp [encodeQuestion]
  have run := @loop_encoded labels encodable (toBe id ++ [flags0, flags1] ++ toBe 1 ++ counts)
    (toBe qtype ++ toBe qclass ++ back) [] ((toBe id ++ [flags0, flags1] ++ toBe 1 ++ counts ++
      (encodeQuestion labels qtype qclass ++ back)).length + 1) (by
        have := @length_le_encoded labels
        have := length_encodeQuestion labels qtype qclass
        rw [List.length_append, header, List.length_append]
        omega)
  rw [← rest, header] at run
  have finish := finishQuery_encoded _ back header id flags0 labels qtype qclass
  rw [header] at finish
  have first (k : Nat) (inside : k < 6) : (toBe id ++ [flags0, flags1] ++ toBe 1 ++ counts ++
      (encodeQuestion labels qtype qclass ++ back))[k]? =
        (toBe id ++ [flags0, flags1] ++ toBe 1)[k]? := by
    rw [List.append_assoc _ counts, List.getElem?_append_left (by simpa [length_toBe] using inside)]
  rw [parseQuery, if_neg (by rw [List.length_append, header]; omega), first 0 (by omega),
    first 1 (by omega), first 2 (by omega), first 4 (by omega), first 5 (by omega), run]
  rw [List.nil_append]
  change (if fromBe (.ofNat ((1 : UInt16).toNat / 256)) (.ofNat ((1 : UInt16).toNat % 256)) ≠ 1 then
      some none
    else some ((some (Labels.mk _ (texts labels))).bind (finishQuery _
      (fromBe (.ofNat (id.toNat / 256)) (.ofNat (id.toNat % 256))) _ _))) = _
  rw [fromBe_toBe, if_neg (not_not.mpr rfl), fromBe_toBe, Option.bind_some, finish]

theorem drop_eq_of_getElem? {pos : Nat} {byte : UInt8} (found : buf[pos]? = some byte) :
    buf.drop pos = byte :: buf.drop (pos + 1) := by
  obtain ⟨inside, at_⟩ := List.getElem?_eq_some_iff.mp found
  rw [List.drop_eq_getElem_cons inside, at_]

theorem finishQuery_eq_some {id : UInt16} {rd : Bool} {read : Labels} {labels : List (List UInt8)}
    {query : Query} (whole : buf.drop 12 = labels.flatMap encodeLabel ++ 0 :: buf.drop read.pos)
    (told : read.labels = texts labels) (found : finishQuery buf id opcode rd read = some query) :
    query = ⟨id, opcode, rd, ['.'].intercalate (texts labels), query.qtype, query.qclass,
        encodeQuestion labels query.qtype query.qclass⟩ ∧
      ∃ back, buf.drop 12 = query.questionBytes ++ back := by
  obtain ⟨t0, first, found⟩ := Option.bind_eq_some_iff.mp found
  obtain ⟨t1, second, found⟩ := Option.bind_eq_some_iff.mp found
  obtain ⟨c0, third, found⟩ := Option.bind_eq_some_iff.mp found
  obtain ⟨c1, fourth, found⟩ := Option.bind_eq_some_iff.mp found
  obtain ⟨question, slice, found⟩ := Option.bind_eq_some_iff.mp found
  cases found
  obtain ⟨-, -, -, rest⟩ := get_eq_some slice
  have same : question = encodeQuestion labels (fromBe t0 t1) (fromBe c0 c1) := by
    refine List.append_cancel_right (rest.symm.trans (whole.trans ?_))
    rw [drop_eq_of_getElem? first, drop_eq_of_getElem? second, drop_eq_of_getElem? third,
      drop_eq_of_getElem? fourth, encodeQuestion, toBe_fromBe, toBe_fromBe]
    simp
  exact ⟨by rw [told, same], _, rest⟩

/-- A datagram with a whole header is read to an end. -/
theorem parseQuery_of_header (long : 12 ≤ buf.length) :
    ∃ (b0 b1 flags0 b4 b5 : UInt8) (read : Option Labels), Reads buf ⟨12, []⟩ read ∧
      parseQuery buf = some (if fromBe b4 b5 ≠ 1 then none
        else read.bind (finishQuery buf (fromBe b0 b1) ((flags0 >>> 3) &&& 0x0F)
          (flags0 &&& 1 ≠ 0))) := by
  have at_ (k : Nat) (inside : k < 12) : ∃ byte, buf[k]? = some byte :=
    ⟨_, List.getElem?_eq_getElem (by omega)⟩
  obtain ⟨b0, first⟩ := at_ 0 (by decide)
  obtain ⟨b1, second⟩ := at_ 1 (by decide)
  obtain ⟨flags0, third⟩ := at_ 2 (by decide)
  obtain ⟨b4, fifth⟩ := at_ 4 (by decide)
  obtain ⟨b5, sixth⟩ := at_ 5 (by decide)
  obtain ⟨read, run, reads⟩ :=
    @loop_labelPass buf (buf.length + 1) ⟨12, []⟩ long (Nat.lt_succ_of_le (Nat.sub_le _ _))
  refine ⟨b0, b1, flags0, b4, b5, read, reads, ?_⟩
  rw [parseQuery, if_neg (Nat.not_lt.mpr long), first, second, third, fifth, sixth, run]
  by_cases one : fromBe b4 b5 ≠ 1
  · exact (if_pos one).trans (congrArg some (if_pos one).symm)
  · exact (if_neg one).trans (congrArg some (if_neg one).symm)

theorem parseQuery_total (buf : List UInt8) : ∃ result, parseQuery buf = some result := by
  by_cases short : buf.length < 12
  · exact ⟨none, by rw [parseQuery, if_pos short]⟩
  · obtain ⟨_, _, _, _, _, _, -, run⟩ := parseQuery_of_header (Nat.not_lt.mp short)
    exact ⟨_, run⟩

/-- What a datagram that is read as a query holds. -/
theorem exists_of_parseQuery {query : Query} (parsed : parseQuery buf = some (some query)) :
    ∃ id flags0 labels back, Encodable labels ∧
      query = queryOf id flags0 labels query.qtype query.qclass ∧
      buf.drop 12 = query.questionBytes ++ back := by
  by_cases short : buf.length < 12
  · rw [parseQuery, if_pos short] at parsed
    cases parsed
  · obtain ⟨b0, b1, flags0, b4, b5, read, reads, run⟩ :=
      parseQuery_of_header (Nat.not_lt.mp short)
    rw [run] at parsed
    have inner := Option.some.inj parsed
    split at inner
    · cases inner
    · obtain ⟨state, rfl, found⟩ := Option.bind_eq_some_iff.mp inner
      obtain ⟨labels, encodable, whole, told, -⟩ := reads state rfl
      obtain ⟨same, back, rest⟩ := finishQuery_eq_some whole (by simpa using told) found
      exact ⟨fromBe b0 b1, flags0, labels, back, encodable, same, rest⟩

/-! ## The codec -/

theorem parseQuery_encodeQuery {labels : List (List Char)}
    (encodable : Encodable (labels.map Utf8.encode)) (small : opcode.toNat < 16) (id : UInt16)
    (rd : Bool) (qtype qclass : UInt16) (back : List UInt8) :
    parseQuery (encodeQuery id opcode rd labels qtype qclass ++ back) =
      some (some ⟨id, opcode, rd, ['.'].intercalate labels, qtype, qclass,
        encodeQuestion (labels.map Utf8.encode) qtype qclass⟩) := by
  have parsed := @parseQuery_encoded _ encodable id (queryFlags opcode rd) 0x00
    (toBe 0 ++ toBe 0 ++ toBe 0) rfl qtype qclass back
  obtain ⟨sameOpcode, sameRd⟩ := opcode_queryFlags small rd
  have sameTexts : texts (labels.map Utf8.encode) = labels := by
    simp [texts, Function.comp_def]
  rw [queryOf, sameOpcode, sameRd, sameTexts] at parsed
  rw [← parsed, encodeQuery]
  simp

theorem parseQuery_buildResponse {query : Query} (parsed : parseQuery buf = some (some query))
    (answer : Option Ipv4) : parseQuery (buildResponse query answer) = some (some query) := by
  obtain ⟨id, flags0, labels, back, encodable, whole, -⟩ := exists_of_parseQuery parsed
  have small : query.opcode.toNat < 16 := by
    rw [whole]
    exact opcode_lt flags0
  obtain ⟨sameOpcode, sameRd⟩ := opcode_responseFlags small answer.isSome query.rd
  have question : query.questionBytes = encodeQuestion labels query.qtype query.qclass := by
    rw [whole]
    rfl
  have name : query.qname = ['.'].intercalate (texts labels) := by
    rw [whole]
    rfl
  have again := @parseQuery_encoded labels encodable query.id
    (responseFlags query.opcode answer.isSome query.rd)
    ((if query.opcode ≠ 0 then 4 else if answer.isSome then 0 else 3) &&& 0x0F)
    (toBe (if (answerHit query answer).isSome then 1 else 0) ++ toBe 0 ++ toBe 0) rfl
    query.qtype query.qclass (((answerHit query answer).map answerRecord).getD [])
  rw [queryOf, sameOpcode, sameRd, ← name, ← question] at again
  rw [← again, buildResponse]
  simp

/-- The answer count of a message. -/
def answerCount (message : List UInt8) : Option UInt16 := do
  let high ← message[6]?
  let low ← message[7]?
  return fromBe high low

theorem answerCount_buildResponse (query : Query) (answer : Option Ipv4) :
    answerCount (buildResponse query answer) =
      some (if (answerHit query answer).isSome then 1 else 0) := by
  rw [← fromBe_toBe (if (answerHit query answer).isSome then 1 else 0)]
  rfl

theorem length_buildResponse (query : Query) (answer : Option Ipv4) :
    (buildResponse query answer).length = 12 + query.questionBytes.length +
      16 * (if (answerHit query answer).isSome then 1 else 0) := by
  rw [buildResponse]
  cases answerHit query answer with
  | none =>
      simp [length_toBe]
      omega
  | some address =>
      simp [length_toBe, answerRecord, toBe32, Ipv4.octets]
      omega

theorem octets_suffix {query : Query} {answer : Option Ipv4} {address : Ipv4}
    (hit : answerHit query answer = some address) :
    address.octets <:+ buildResponse query answer := by
  have last : address.octets <:+ answerRecord address := List.suffix_append _ _
  rw [buildResponse, hit]
  exact last.trans (List.suffix_append _ _)

/-- Every datagram is read to an end within its bytes, and the question kept is a piece of it from
behind the header on. An encoded question is read back, whatever follows. A response is read as
the query it answers; it counts one answer exactly if an address is given and asked for, is as long
as its parts, and ends in the address. -/
theorem codec_faithful :
    (∀ buf, ∃ result, parseQuery buf = some result ∧
      ∀ query, result = some query → query.questionBytes <+: buf.drop 12) ∧
    (∀ (id : UInt16) (opcode : UInt8) (rd : Bool) (labels : List (List Char))
        (qtype qclass : UInt16) (back : List UInt8), opcode.toNat < 16 →
      Encodable (labels.map Utf8.encode) →
      parseQuery (encodeQuery id opcode rd labels qtype qclass ++ back) =
        some (some ⟨id, opcode, rd, ['.'].intercalate labels, qtype, qclass,
          encodeQuestion (labels.map Utf8.encode) qtype qclass⟩)) ∧
    ∀ buf query answer, parseQuery buf = some (some query) →
      ∃ count : UInt16,
        parseQuery (buildResponse query answer) = some (some query) ∧
        answerCount (buildResponse query answer) = some count ∧
        count = (if answer.isSome ∧ query.qtype = typeA ∧ query.qclass = classIn then 1 else 0) ∧
        (buildResponse query answer).length = 12 + query.questionBytes.length + 16 * count.toNat ∧
        ∀ address, count = 1 → answer = some address →
          address.octets <:+ buildResponse query answer := by
  refine ⟨fun buf => ?_, fun id opcode rd labels qtype qclass back small encodable =>
    parseQuery_encodeQuery encodable small id rd qtype qclass back,
    fun buf query answer parsed => ?_⟩
  · obtain ⟨result, run⟩ := parseQuery_total buf
    refine ⟨result, run, ?_⟩
    rintro query rfl
    obtain ⟨_, _, _, back, -, -, whole⟩ := exists_of_parseQuery run
    exact ⟨back, whole.symm⟩
  · have counted : (answerHit query answer).isSome ↔
        answer.isSome ∧ query.qtype = typeA ∧ query.qclass = classIn := by
      rw [answerHit]
      split <;> rename_i asked <;> simp [asked]
    refine ⟨if (answerHit query answer).isSome then 1 else 0,
      parseQuery_buildResponse parsed answer, answerCount_buildResponse query answer, ?_, ?_, ?_⟩
    · simp only [counted]
    · rw [length_buildResponse]
      split <;> rfl
    · rintro address one rfl
      refine octets_suffix ?_
      have hit : (answerHit query (some address)).isSome := by
        by_contra missed
        rw [if_neg missed] at one
        cases one
      rw [answerHit, if_pos (counted.mp hit).2]

end Dns
end Fghj
