import Fghj.Library.Multimap
import Fghj.Library.Words

/-!
# The headers the proxy forwards

Headers that describe one connection are dropped on either side of the proxy, among them those that
the values of `Connection` name, and the address of the client is added to the chain of forwarding
headers. Both read header values as text, and pass over a value that is none.
-/

namespace Fghj
namespace ProxyHeaders

/-! ## Names and values -/

/-- The bytes of a text of characters of one byte each. -/
def ascii (text : String) : List UInt8 := text.toList.map fun char => UInt8.ofNat char.toNat

/-- A byte that a header name may hold, in either case. -/
def isToken (byte : UInt8) : Bool :=
  (48 ≤ byte && byte ≤ 57) || (65 ≤ byte && byte ≤ 90) || (97 ≤ byte && byte ≤ 122) ||
    (ascii "!#$%&'*+-.^_`|~").contains byte

/-- A letter in lower case, and any other byte as it is. -/
def toLower (byte : UInt8) : UInt8 := if 65 ≤ byte && byte ≤ 90 then byte + 32 else byte

/-- The bytes make a header name, of letters in either case. -/
def isName (bytes : List UInt8) : Bool :=
  !bytes.isEmpty && decide (bytes.length ≤ 65535) && bytes.all isToken

/-- A header name, none of its letters in upper case. -/
structure HeaderName where
  bytes : List UInt8
  named : (isName bytes && bytes.all fun byte => toLower byte == byte) = true
  deriving DecidableEq

variable {byte : UInt8}

theorem toLower_spec (token : isToken byte) :
    isToken (toLower byte) = true ∧ toLower (toLower byte) = toLower byte := by
  have each : ∀ n < 256, isToken (UInt8.ofNat n) = true →
      isToken (toLower (UInt8.ofNat n)) = true ∧
        toLower (toLower (UInt8.ofNat n)) = toLower (UInt8.ofNat n) := by
    decide +kernel
  simpa only [UInt8.ofNat_toNat] using
    each byte.toNat byte.toNat_lt (by rw [UInt8.ofNat_toNat]; exact token)

/-- `HeaderName::from_bytes` -/
def HeaderName.fromBytes (bytes : List UInt8) : Option HeaderName :=
  if named : isName bytes then
    some ⟨bytes.map toLower, by
      simp only [isName, Bool.and_eq_true, decide_eq_true_eq, List.all_eq_true] at named
      obtain ⟨⟨some, short⟩, token⟩ := named
      simp only [isName, Bool.and_eq_true, decide_eq_true_eq, List.all_eq_true, List.length_map,
        List.isEmpty_map, List.forall_mem_map, beq_iff_eq]
      exact ⟨⟨⟨some, short⟩, fun byte member => (toLower_spec (token byte member)).1⟩,
        fun byte member => (toLower_spec (token byte member)).2⟩⟩
  else none

/-- A byte that a header value may hold. -/
def admits (byte : UInt8) : Bool := byte == 9 || (32 ≤ byte && byte != 127)

/-- A byte of a header value that is text. -/
def isVisible (byte : UInt8) : Bool := byte == 9 || (32 ≤ byte && byte < 127)

structure HeaderValue where
  bytes : List UInt8
  admitted : bytes.all admits = true
  deriving DecidableEq

/-- `HeaderValue::to_str`: the text of a value, by its bytes. -/
def HeaderValue.toStr (value : HeaderValue) : Option (List UInt8) :=
  if value.bytes.all isVisible then some value.bytes else none

/-- `HeaderValue::from_str` -/
def HeaderValue.fromStr (bytes : List UInt8) : Option HeaderValue :=
  if admitted : bytes.all admits then some ⟨bytes, admitted⟩ else none

abbrev HeaderMap := List (HeaderName × HeaderValue)

open Multimap

/-! ## Dropping what describes one connection -/

/-- Spaces and tabs, which are all that can be trimmed of a text in a header value. -/
def isSpace (byte : UInt8) : Bool := byte == 32 || byte == 9

def trim (text : List UInt8) : List UInt8 :=
  ((text.dropWhile isSpace).reverse.dropWhile isSpace).reverse

/-- The headers that the tokens of a value name. -/
def namesOf (text : List UInt8) : List HeaderName :=
  (text.splitOn 44).filterMap fun token => HeaderName.fromBytes (trim token)

def connection : HeaderName := ⟨ascii "connection", by decide⟩
def upgradeName : HeaderName := ⟨ascii "upgrade", by decide⟩
def keepAlive : HeaderName := ⟨ascii "keep-alive", by decide⟩
def proxyConnection : HeaderName := ⟨ascii "proxy-connection", by decide⟩
def te : HeaderName := ⟨ascii "te", by decide⟩
def trailer : HeaderName := ⟨ascii "trailer", by decide⟩
def transferEncoding : HeaderName := ⟨ascii "transfer-encoding", by decide⟩

/-- The names that are dropped in any case. -/
def hopByHop : List HeaderName := [keepAlive, proxyConnection, te, trailer, transferEncoding]

/-- The value a connection has that is upgraded. -/
def upgradeValue : HeaderValue := ⟨ascii "upgrade", by decide⟩

def stripHopByHop (headers : HeaderMap) (upgrade : Bool) : HeaderMap :=
  let named := ((getAll headers connection).filterMap HeaderValue.toStr).flatMap namesOf
  let headers := removeAll headers (named.filter fun name => !(upgrade && name = upgradeName))
  let headers := removeAll headers hopByHop
  if upgrade then insert connection upgradeValue headers
  else remove (remove headers connection) upgradeName

/-! ## Adding the client -/

/-- The address of a client as it is printed. -/
structure ClientIp where
  bytes : List UInt8
  printed : (!bytes.isEmpty && bytes.all (ascii "0123456789abcdef.:").contains) = true

def xForwardedProto : HeaderName := ⟨ascii "x-forwarded-proto", by decide⟩
def xForwardedHost : HeaderName := ⟨ascii "x-forwarded-host", by decide⟩
def xForwardedFor : HeaderName := ⟨ascii "x-forwarded-for", by decide⟩
def host : HeaderName := ⟨ascii "host", by decide⟩

/-- The chain of addresses, with the client's at its end. -/
def chain (values : List HeaderValue) (clientIp : ClientIp) : List UInt8 :=
  let before := (ascii ", ").intercalate (values.filterMap HeaderValue.toStr)
  (if before.isEmpty then before else before ++ ascii ", ") ++ clientIp.bytes

def addForwardedHeaders (headers : HeaderMap) (clientIp : ClientIp) (proto : HeaderValue) :
    HeaderMap :=
  let headers :=
    if getAll headers xForwardedProto = [] then insert xForwardedProto proto headers else headers
  let headers :=
    match getAll headers xForwardedHost, (getAll headers host).head? with
    | [], some name => insert xForwardedHost name headers
    | _, _ => headers
  match HeaderValue.fromStr (chain (getAll headers xForwardedFor) clientIp) with
  | some value => insert xForwardedFor value headers
  | none => headers

/-! ## What is asked of the two -/

/-- Some `Connection` value names the header. -/
def Named (headers : HeaderMap) (name : HeaderName) : Prop :=
  ∃ value ∈ getAll headers connection, name ∈ namesOf value.bytes

/-- What is left is what is meant for the other end. -/
structure Stripped (headers : HeaderMap) (upgrade : Bool) : Prop where
  named : ∀ name, Named headers name → ¬(upgrade ∧ (name = connection ∨ name = upgradeName)) →
    getAll (stripHopByHop headers upgrade) name = []
  hopByHop : ∀ name ∈ hopByHop, getAll (stripHopByHop headers upgrade) name = []
  pair : getAll (stripHopByHop headers upgrade) connection =
      (if upgrade then [upgradeValue] else []) ∧
    getAll (stripHopByHop headers upgrade) upgradeName =
      if upgrade then getAll headers upgradeName else []
  others : ∀ name, ¬Named headers name → name ∉ ProxyHeaders.hopByHop → name ≠ connection →
    name ≠ upgradeName → getAll (stripHopByHop headers upgrade) name = getAll headers name
  again : stripHopByHop (stripHopByHop headers upgrade) upgrade = stripHopByHop headers upgrade

/-- The entries of a list that a value holds. -/
def hops (text : List UInt8) : List (List UInt8) :=
  ((text.splitOn 44).map trim).filter fun hop => !hop.isEmpty

/-- The client has been added, and nothing that was there is lost. -/
structure Forwarded (headers : HeaderMap) (clientIp : ClientIp) (proto : HeaderValue) : Prop where
  kept : ∀ name ∈ [xForwardedProto, xForwardedHost],
    getAll headers name <+: getAll (addForwardedHeaders headers clientIp proto) name
  chain : ∃ value, getAll (addForwardedHeaders headers clientIp proto) xForwardedFor = [value] ∧
    hops value.bytes =
      (getAll headers xForwardedFor).flatMap (fun value => hops value.bytes) ++ [clientIp.bytes]
  others : ∀ name ∉ [xForwardedProto, xForwardedHost, xForwardedFor],
    getAll (addForwardedHeaders headers clientIp proto) name = getAll headers name

/-- A header that a `Connection` value which is no text names is not there, or is dropped anyway. -/
def NamedInText (headers : HeaderMap) : Prop :=
  ∀ value ∈ getAll headers connection, value.toStr = none → ∀ name ∈ namesOf value.bytes,
    getAll headers name = [] ∨ name ∈ hopByHop ∨ name = connection ∨ name = upgradeName ∨
      ∃ other ∈ getAll headers connection, other.toStr.isSome ∧ name ∈ namesOf other.bytes

/-! ## Dropping -/

variable {text : List UInt8}

section Dropping

variable (headers : HeaderMap) (upgrade : Bool)

/-- The headers that a value of text names. -/
def textNames : List HeaderName :=
  ((getAll headers connection).filterMap HeaderValue.toStr).flatMap namesOf

variable {headers upgrade}

theorem toStr_eq_some {value : HeaderValue} (read : value.toStr = some text) :
    text = value.bytes := by
  rw [HeaderValue.toStr] at read
  split at read
  · exact (Option.some.inj read).symm
  · cases read

theorem mem_textNames {name : HeaderName} : name ∈ textNames headers ↔
    ∃ value ∈ getAll headers connection, value.toStr.isSome ∧ name ∈ namesOf value.bytes := by
  simp only [textNames, List.mem_flatMap, List.mem_filterMap]
  constructor
  · rintro ⟨text, ⟨value, member, read⟩, named⟩
    exact ⟨value, member, by rw [read]; rfl, toStr_eq_some read ▸ named⟩
  · rintro ⟨value, member, some, named⟩
    obtain ⟨text, read⟩ := Option.isSome_iff_exists.mp some
    exact ⟨text, ⟨value, member, read⟩, (toStr_eq_some read).symm ▸ named⟩

theorem stripHopByHop_eq : stripHopByHop headers upgrade =
    let dropped := removeAll (removeAll headers
      ((textNames headers).filter fun name => !(upgrade && name = upgradeName))) hopByHop
    if upgrade then insert connection upgradeValue dropped
    else remove (remove dropped connection) upgradeName :=
  rfl

/-- The values of a header that are left. -/
theorem getAll_strip (name : HeaderName) : getAll (stripHopByHop headers upgrade) name =
    if name = connection then (if upgrade then [upgradeValue] else [])
    else if name = upgradeName then (if upgrade then getAll headers upgradeName else [])
    else if name ∈ hopByHop ∨ name ∈ textNames headers then [] else getAll headers name := by
  have apart : upgradeName ≠ connection ∧ upgradeName ∉ hopByHop := by decide
  cases upgrade with
  | false =>
      simp only [stripHopByHop_eq, Bool.false_eq_true, if_false, getAll_remove, Bool.false_and,
        Bool.not_false, List.filter_true, getAll_removeAll]
      by_cases first : name = connection
      · simp [first, apart.1.symm]
      · by_cases second : name = upgradeName
        · simp [second]
        · simp only [first, second, if_false]
          by_cases third : name ∈ hopByHop
          · rw [if_pos third, if_pos (.inl third)]
          · rw [if_neg third]
            simp only [third, false_or]
  | true =>
      simp only [stripHopByHop_eq, if_true, getAll_insert, Bool.true_and, getAll_removeAll,
        List.mem_filter]
      by_cases first : name = connection
      · simp [first]
      · by_cases second : name = upgradeName
        · simp [second, apart.1, apart.2]
        · simp only [first, second, if_false, decide_false, Bool.not_false, and_true]
          by_cases third : name ∈ hopByHop
          · rw [if_pos third, if_pos (.inl third)]
          · rw [if_neg third]
            simp only [third, false_or]

theorem strip_connection : getAll (stripHopByHop headers upgrade) connection =
    if upgrade then [upgradeValue] else [] := by
  rw [getAll_strip, if_pos rfl]

theorem strip_hopByHop {name : HeaderName} (fixed : name ∈ hopByHop) :
    getAll (stripHopByHop headers upgrade) name = [] := by
  have apart : ∀ name ∈ hopByHop, name ≠ connection ∧ name ≠ upgradeName := by decide
  obtain ⟨first, second⟩ := apart name fixed
  rw [getAll_strip, if_neg first, if_neg second, if_pos (.inl fixed)]

theorem namesOf_upgrade : namesOf upgradeValue.bytes = [upgradeName] := by decide

/-- What is left over is left alone. -/
theorem strip_strip : stripHopByHop (stripHopByHop headers upgrade) upgrade =
    stripHopByHop headers upgrade := by
  generalize stripped : stripHopByHop headers upgrade = left
  have of_connection : getAll left connection = if upgrade then [upgradeValue] else [] :=
    stripped ▸ strip_connection
  have fixed : removeAll left hopByHop = left :=
    removeAll_of_absent fun name member => stripped ▸ strip_hopByHop member
  rw [stripHopByHop, of_connection]
  cases upgrade with
  | false =>
      have of_upgrade : getAll left upgradeName = [] := by
        rw [← stripped, getAll_strip, if_neg (by decide), if_pos rfl]
        rfl
      simp only [Bool.false_eq_true, if_false, List.filterMap_nil, List.flatMap_nil,
        List.filter_nil]
      rw [show removeAll left [] = left from rfl, fixed, remove_of_absent of_connection,
        remove_of_absent of_upgrade]
  | true =>
      have read : upgradeValue.toStr = some upgradeValue.bytes := by decide
      simp only [if_true, List.filterMap_cons, read, List.filterMap_nil, List.flatMap_singleton,
        namesOf_upgrade, Bool.true_and, decide_true, Bool.not_true, List.filter_cons,
        Bool.false_eq_true, if_false, List.filter_nil]
      rw [show removeAll left [] = left from rfl, fixed, insert_of_getAll of_connection]

/-- What describes the connection is dropped, and nothing else, exactly if no value that is no text
names a header that would be dropped for it alone. -/
theorem stripped_iff : Stripped headers upgrade ↔ NamedInText headers := by
  constructor
  · intro stripped value member unread name named
    by_cases first : name = connection
    · exact .inr (.inr (.inl first))
    by_cases second : name = upgradeName
    · exact .inr (.inr (.inr (.inl second)))
    have gone := stripped.named name ⟨value, member, named⟩ fun both => both.2.elim first second
    rw [getAll_strip, if_neg first, if_neg second] at gone
    split at gone
    · rename_i dropped
      rcases dropped with fixed | inText
      · exact .inr (.inl fixed)
      · exact .inr (.inr (.inr (.inr (mem_textNames.mp inText))))
    · exact .inl gone
  · intro inText
    refine ⟨fun name named pair => ?_, fun name fixed => strip_hopByHop fixed,
      ⟨strip_connection, ?_⟩, fun name unnamed other first second => ?_, strip_strip⟩
    · rw [getAll_strip]
      by_cases first : name = connection
      · have plain : upgrade = false := by
          rw [← Bool.not_eq_true]
          exact fun up => pair ⟨up, .inl first⟩
        rw [if_pos first, plain]
        rfl
      by_cases second : name = upgradeName
      · have plain : upgrade = false := by
          rw [← Bool.not_eq_true]
          exact fun up => pair ⟨up, .inr second⟩
        rw [if_neg first, if_pos second, plain]
        rfl
      rw [if_neg first, if_neg second]
      split
      · rfl
      · rename_i kept
        rw [not_or, mem_textNames] at kept
        obtain ⟨value, member, token⟩ := named
        cases read : value.toStr with
        | some text => exact absurd ⟨value, member, by rw [read]; rfl, token⟩ kept.2
        | none =>
            rcases inText value member read name token with
              absent | fixed | same | same | elsewhere
            · exact absent
            · exact absurd fixed kept.1
            · exact absurd same first
            · exact absurd same second
            · exact absurd elsewhere kept.2
    · rw [getAll_strip, if_neg (by decide), if_pos rfl]
    · rw [getAll_strip, if_neg first, if_neg second, if_neg]
      rintro (fixed | inText)
      · exact other fixed
      · obtain ⟨value, member, -, token⟩ := mem_textNames.mp inText
        exact unnamed ⟨value, member, token⟩

end Dropping

/-! ## The chain of addresses -/

section Chain

theorem trim_space (text : List UInt8) : trim (32 :: text) = trim text := by
  rw [trim, List.dropWhile_cons_of_pos (by decide), ← trim]

theorem dropWhile_eq_self (solid : ∀ byte ∈ text, isSpace byte = false) :
    text.dropWhile isSpace = text := by
  cases text with
  | nil => rfl
  | cons byte text =>
      rw [List.dropWhile_cons_of_neg (by simp [(List.forall_mem_cons.mp solid).1])]

theorem trim_eq_self (solid : ∀ byte ∈ text, isSpace byte = false) : trim text = text := by
  have backwards : ∀ byte ∈ text.reverse, isSpace byte = false :=
    fun byte member => solid byte (List.mem_reverse.mp member)
  rw [trim, dropWhile_eq_self solid, dropWhile_eq_self backwards, List.reverse_reverse]

theorem mem_dropWhile (member : byte ∈ text) (solid : isSpace byte = false) :
    byte ∈ text.dropWhile isSpace := by
  rw [← List.takeWhile_append_dropWhile (p := isSpace) (l := text), List.mem_append] at member
  rcases member with space | kept
  · rw [List.all_eq_true.mp List.all_takeWhile byte space] at solid
    cases solid
  · exact kept

theorem mem_trim (member : byte ∈ text) (solid : isSpace byte = false) : byte ∈ trim text :=
  List.mem_reverse.mpr
    (mem_dropWhile (List.mem_reverse.mpr (mem_dropWhile member solid)) solid)

theorem hops_nil : hops [] = [] := by decide

theorem hops_append (front back : List UInt8) :
    hops (front ++ ascii ", " ++ back) = hops front ++ hops back := by
  have joined : front ++ ascii ", " ++ back = front ++ 44 :: (32 :: back) := by
    rw [List.append_assoc]
    rfl
  have later : ((32 :: back).splitOn 44).map trim = (back.splitOn 44).map trim := by
    rw [List.splitOn_cons_eq_if_modifyHead, if_neg (by decide)]
    obtain ⟨head, tail, split⟩ := List.exists_cons_of_ne_nil (List.splitOn_ne_nil 44 back)
    rw [split, List.modifyHead_cons, List.map_cons, List.map_cons, trim_space]
  rw [joined, hops, List.splitOn_append_cons_self, List.map_append, later, List.filter_append]
  rfl

theorem hops_intercalate (texts : List (List UInt8)) :
    hops ((ascii ", ").intercalate texts) = texts.flatMap hops := by
  induction texts with
  | nil => exact hops_nil
  | cons text texts ih =>
      cases texts with
      | nil => simp
      | cons next texts =>
          rw [List.intercalate_cons_cons, hops_append, ih]
          rfl

variable (clientIp : ClientIp)

theorem clientIp_plain (member : byte ∈ clientIp.bytes) :
    byte ≠ 44 ∧ isSpace byte = false ∧ admits byte = true := by
  have each : (ascii "0123456789abcdef.:").all fun byte =>
      byte != 44 && !isSpace byte && admits byte := by
    decide
  have printed := (Bool.and_eq_true_iff.mp clientIp.printed).2
  have here := List.all_eq_true.mp each byte
    (List.contains_iff_mem.mp (List.all_eq_true.mp printed byte member))
  simp only [Bool.and_eq_true, bne_iff_ne, Bool.not_eq_true'] at here
  exact ⟨here.1.1, here.1.2, here.2⟩

theorem hops_clientIp : hops clientIp.bytes = [clientIp.bytes] := by
  have whole : clientIp.bytes.splitOn 44 = [clientIp.bytes] :=
    List.splitOn_eq_singleton fun member => (clientIp_plain clientIp member).1 rfl
  have solid := trim_eq_self fun byte member => (clientIp_plain clientIp member).2.1
  rw [hops, whole, List.map_singleton, solid, List.filter_cons,
    if_pos (Bool.and_eq_true_iff.mp clientIp.printed).1]
  rfl

/-- The chain holds the entries of the values that are text, and the client's address. -/
theorem hops_chain (values : List HeaderValue) : hops (chain values clientIp) =
    (values.filterMap HeaderValue.toStr).flatMap hops ++ [clientIp.bytes] := by
  rw [chain, ← hops_intercalate]
  split
  · rename_i empty
    rw [List.isEmpty_iff.mp empty, hops_nil]
    exact hops_clientIp clientIp
  · rw [hops_append, hops_clientIp]

theorem admits_of_isVisible (visible : isVisible byte) : admits byte = true := by
  simp only [isVisible, admits, Bool.or_eq_true, Bool.and_eq_true, beq_iff_eq, bne_iff_ne,
    decide_eq_true_eq] at visible ⊢
  refine visible.imp_right fun range => ⟨range.1, ?_⟩
  rintro rfl
  exact absurd range.2 (by decide)

theorem chain_admitted (values : List HeaderValue) : (chain values clientIp).all admits = true := by
  have between : ∀ byte ∈ ascii ", ", admits byte = true := List.all_eq_true.mp (by decide)
  have before : ∀ byte ∈ (ascii ", ").intercalate (values.filterMap HeaderValue.toStr),
      admits byte = true := by
    refine Words.forall_mem_intercalate between fun text member byte inside => ?_
    obtain ⟨value, -, read⟩ := List.mem_filterMap.mp member
    rw [HeaderValue.toStr] at read
    split at read
    · rename_i visible
      rw [← Option.some.inj read] at inside
      exact admits_of_isVisible (List.all_eq_true.mp visible byte inside)
    · cases read
  rw [chain, List.all_eq_true]
  refine List.forall_mem_append.mpr ⟨?_, fun byte member => (clientIp_plain clientIp member).2.2⟩
  split
  · exact before
  · exact List.forall_mem_append.mpr ⟨before, between⟩

theorem hops_of_unread {value : HeaderValue} (unread : value.toStr = none) :
    hops value.bytes ≠ [] := by
  intro none
  have visible : value.bytes.all isVisible = true := by
    rw [List.all_eq_true]
    intro byte member
    by_contra hidden
    have solid : isSpace byte = false ∧ byte ≠ 44 := by
      constructor
      · by_contra space
        simp only [isSpace, Bool.not_eq_false, Bool.or_eq_true, beq_iff_eq] at space
        rcases space with rfl | rfl <;> exact hidden (by decide)
      · rintro rfl
        exact hidden (by decide)
    -- the byte stands in some entry, which is not empty then
    have absent : ∀ part ∈ value.bytes.splitOn 44, ∀ other ∈ part, other ≠ byte := by
      rintro part inside other here rfl
      have entry : trim part ∈ hops value.bytes := by
        rw [hops, List.mem_filter]
        refine ⟨List.mem_map_of_mem inside, ?_⟩
        simpa using List.ne_nil_of_mem (mem_trim here solid.1)
      rw [none] at entry
      exact List.not_mem_nil entry
    have nowhere := @Words.forall_mem_intercalate _ (· ≠ byte) [44]
      (List.forall_mem_singleton.mpr solid.2.symm) _ absent byte
    rw [List.intercalate_splitOn] at nowhere
    exact nowhere member rfl
  rw [HeaderValue.toStr, if_pos visible] at unread
  cases unread

/-- No entry is lost exactly if every value is text. -/
theorem flatMap_hops_iff {values : List HeaderValue} :
    (values.filterMap HeaderValue.toStr).flatMap hops =
      values.flatMap (fun value => hops value.bytes) ↔ ∀ value ∈ values, value.toStr.isSome := by
  have fewer : (values.filterMap HeaderValue.toStr).flatMap hops =
        values.flatMap (fun value => hops value.bytes) ∧ (∀ value ∈ values, value.toStr.isSome) ∨
      ((values.filterMap HeaderValue.toStr).flatMap hops).length <
        (values.flatMap fun value => hops value.bytes).length ∧
        ¬∀ value ∈ values, value.toStr.isSome := by
    induction values with
    | nil => exact .inl ⟨rfl, fun value member => absurd member List.not_mem_nil⟩
    | cons value values ih =>
        rw [List.filterMap_cons, List.forall_mem_cons, List.flatMap_cons, List.length_append]
        cases read : value.toStr with
        | some text =>
            rw [List.flatMap_cons, List.length_append, toStr_eq_some read]
            rcases ih with ⟨same, all⟩ | ⟨less, other⟩
            · exact .inl ⟨by rw [same], rfl, all⟩
            · exact .inr ⟨by omega, fun both => other both.2⟩
        | none =>
            have long := List.length_pos_of_ne_nil (hops_of_unread read)
            refine .inr ⟨?_, fun both => absurd both.1 (by simp)⟩
            dsimp only
            rcases ih with ⟨same, -⟩ | ⟨less, -⟩
            · rw [same]
              omega
            · omega
  rcases fewer with ⟨same, all⟩ | ⟨less, other⟩
  · exact ⟨fun _ => all, fun _ => same⟩
  · exact ⟨fun same => absurd (congrArg List.length same) (Nat.ne_of_lt less),
      fun all => absurd all other⟩

end Chain

/-! ## Adding -/

section Adding

variable {headers : HeaderMap} {clientIp : ClientIp} {proto : HeaderValue}

/-- The values of a header once the client has been added. -/
theorem getAll_add (name : HeaderName) :
    getAll (addForwardedHeaders headers clientIp proto) name =
      if name = xForwardedFor then
        [⟨chain (getAll headers xForwardedFor) clientIp, chain_admitted clientIp _⟩]
      else if name = xForwardedProto ∧ getAll headers xForwardedProto = [] then [proto]
      else if name = xForwardedHost ∧ getAll headers xForwardedHost = [] then
        (getAll headers host).head?.toList
      else getAll headers name := by
  have apart : xForwardedFor ≠ xForwardedProto ∧ xForwardedFor ≠ xForwardedHost ∧
      xForwardedHost ≠ xForwardedProto ∧ host ≠ xForwardedProto := by decide
  generalize first_eq : (if getAll headers xForwardedProto = [] then
    insert xForwardedProto proto headers else headers) = first
  have of_first (other : HeaderName) : getAll first other =
      if other = xForwardedProto ∧ getAll headers xForwardedProto = [] then [proto]
      else getAll headers other := by
    rw [← first_eq]
    by_cases none : getAll headers xForwardedProto = []
    · simp [none]
    · simp [none]
  generalize second_eq : (match getAll first xForwardedHost, (getAll first host).head? with
    | [], some name => insert xForwardedHost name first
    | _, _ => first) = second
  have of_second (other : HeaderName) : getAll second other =
      if other = xForwardedHost ∧ getAll headers xForwardedHost = [] then
        (getAll headers host).head?.toList
      else getAll first other := by
    have host_eq : getAll first host = getAll headers host := by
      rw [of_first, if_neg fun both => apart.2.2.2 both.1]
    have forwarded_eq : getAll first xForwardedHost = getAll headers xForwardedHost := by
      rw [of_first, if_neg fun both => apart.2.2.1 both.1]
    rw [← second_eq, host_eq, forwarded_eq]
    cases forwarded : getAll headers xForwardedHost with
    | cons value values => simp
    | nil =>
        cases found : (getAll headers host).head? with
        | some name => simp
        | none =>
            by_cases same : other = xForwardedHost
            · simp [same, forwarded_eq, forwarded]
            · simp [same]
  have chain_eq : getAll second xForwardedFor = getAll headers xForwardedFor := by
    rw [of_second, if_neg fun both => apart.2.1 both.1, of_first,
      if_neg fun both => apart.1 both.1]
  have admitted := chain_admitted clientIp (getAll headers xForwardedFor)
  have whole : addForwardedHeaders headers clientIp proto =
      insert xForwardedFor ⟨_, admitted⟩ second := by
    rw [addForwardedHeaders]
    simp only [first_eq, second_eq, chain_eq, HeaderValue.fromStr, dif_pos admitted]
  rw [whole, getAll_insert]
  refine if_congr Iff.rfl rfl ?_
  rw [of_second, of_first]
  by_cases host_here : name = xForwardedHost
  · simp [host_here, apart.2.2.1]
  · simp [host_here]

/-- The client is added and nothing is lost exactly if every address there was is text. -/
theorem forwarded_iff : Forwarded headers clientIp proto ↔
    ∀ value ∈ getAll headers xForwardedFor, value.toStr.isSome := by
  have apart : xForwardedProto ≠ xForwardedFor ∧ xForwardedHost ≠ xForwardedFor ∧
      xForwardedHost ≠ xForwardedProto ∧ xForwardedProto ≠ xForwardedHost := by decide
  have chained := @getAll_add headers clientIp proto xForwardedFor
  rw [if_pos rfl] at chained
  rw [← flatMap_hops_iff]
  constructor
  · intro forwarded
    obtain ⟨value, only, same⟩ := forwarded.chain
    obtain rfl := List.singleton_inj.mp (chained.symm.trans only)
    rw [hops_chain] at same
    exact List.append_cancel_right same
  · intro same
    refine ⟨?_, ⟨_, chained, by rw [hops_chain, same]⟩, fun name other => ?_⟩
    · refine List.forall_mem_cons.mpr ⟨?_, List.forall_mem_singleton.mpr ?_⟩
      · rw [getAll_add, if_neg apart.1]
        split
        · rename_i both
          rw [both.2]
          exact List.nil_prefix
        · simp [apart.2.2.2]
      · rw [getAll_add, if_neg apart.2.1, if_neg fun both => apart.2.2.1 both.1]
        split
        · rename_i both
          rw [both.2]
          exact List.nil_prefix
        · exact List.prefix_refl _
    · simp only [List.mem_cons, List.not_mem_nil, or_false, not_or] at other
      rw [getAll_add, if_neg other.2.2, if_neg fun both => other.1 both.1,
        if_neg fun both => other.2.1 both.1]

/-- The proxy forwards the headers meant for the other end, and these with the client added, exactly
if no value that is no text names a header of its own and every address there was is text. -/
theorem forwards_iff (headers : HeaderMap) (upgrade : Bool) (clientIp : ClientIp)
    (proto : HeaderValue) :
    Stripped headers upgrade ∧ Forwarded headers clientIp proto ↔
      NamedInText headers ∧ ∀ value ∈ getAll headers xForwardedFor, value.toStr.isSome :=
  and_congr stripped_iff forwarded_iff

/-- A value with a byte above ASCII names nothing, and an address in such a value is lost. -/
theorem unread_values : ¬∀ (headers : HeaderMap) (upgrade : Bool) (clientIp : ClientIp)
    (proto : HeaderValue), Stripped headers upgrade ∧ Forwarded headers clientIp proto := by
  intro all
  let secret : HeaderName := ⟨ascii "x-secret", by decide⟩
  let named : HeaderValue := ⟨ascii "x-secret, " ++ [0xE9], by decide⟩
  let address : HeaderValue := ⟨ascii "10.0.0.1 " ++ [0xE9], by decide⟩
  have forwards := all [(connection, named), (secret, upgradeValue), (xForwardedFor, address)]
    false ⟨ascii "10.0.0.2", by decide⟩ upgradeValue
  have left := forwards.1.named secret ⟨named, by decide, by decide⟩ (by simp)
  revert left
  decide

end Adding

end ProxyHeaders
end Fghj
