import Fghj.Library.Words
import Mathlib.Data.String.Basic

/-!
# Derived names

The domains, containers, networks and volumes of a workspace get their names by flattening: lower
case, letters and digits kept, everything else between two of them written as one hyphen. A
flattened text is known by its words, so whether two derived names meet is a question about lists of
words.
-/

namespace Fghj

/-- A Docker object name and DNS label made of any text. -/
def sanitizeLabel (text : String) : String :=
  -- the only characters outside ASCII whose lowercase is in it
  let lower (char : Char) : List Char :=
    if char = '\u212a' then ['k'] else if char = '\u0130' then ['i', '\u0307'] else [char.toLower]
  let push (label : List Char) (char : Char) : List Char :=
    if char.isAlphanum then label ++ [char]
    else if label.getLast? = some '-' then label
    else label ++ ['-']
  let label := (text.toList.flatMap lower).foldl push []
  String.ofList (((label.dropWhile (· == '-')).reverse.dropWhile (· == '-')).reverse)

/-- Why a text is no name of a service, flow or include; serde refuses a file that has one. -/
def Name.whyInvalid (text : String) : Option String :=
  if text.isEmpty then some "a name cannot be empty"
  else
    match text.toList.find? Char.isUpper with
    | some char =>
        some ("'" ++ String.singleton char ++ "' is uppercase; names are lowercase because they " ++
          "become DNS labels, which are case-insensitive")
    | none =>
        match text.toList.find? fun char => !(char.isLower || char.isDigit || char == '-') with
        | some char =>
            some ("'" ++ String.singleton char ++ "' is not allowed; names may contain only " ++
              "lowercase letters, digits and dashes")
        | none =>
            if text.toList.head? = some '-' then some "a name cannot start with a dash" else none

/-- A name has lowercase letters, digits and dashes only. -/
theorem Name.allowed {text : String} (valid : Name.whyInvalid text = none) {char : Char}
    (member : char ∈ text.toList) : (char.isLower || char.isDigit || char == '-') = true := by
  simp only [whyInvalid] at valid
  split at valid
  · cases valid
  · split at valid
    · cases valid
    · split at valid
      · cases valid
      · rename_i allowed
        simpa only [Bool.not_eq_true', Bool.not_eq_false]
          using List.find?_eq_none.mp allowed char member

theorem Name.slash_not_mem {text : String} (valid : Name.whyInvalid text = none) :
    '/' ∉ text.toList :=
  fun member => absurd (Name.allowed valid member) (by decide)

theorem Name.dot_not_mem {text : String} (valid : Name.whyInvalid text = none) :
    '.' ∉ text.toList :=
  fun member => absurd (Name.allowed valid member) (by decide)

namespace Orchestrator

/-- The proxied domain of a node, and the one that resolves straight to its container. -/
inductive DomainZone where
  | http
  | raw
  deriving DecidableEq

def DomainZone.suffix : DomainZone → String
  | .http => "fghj.internal"
  | .raw => "fghj.raw.internal"

def deriveDomain (nodeId workspaceName : String) (zone : DomainZone) : String :=
  nodeId ++ "." ++ sanitizeLabel workspaceName ++ "." ++ zone.suffix

def networkName (workspaceName : String) : String :=
  "fghj-" ++ sanitizeLabel workspaceName ++ "-default"

def sidecarName (workspaceName : String) : String :=
  "fghj-" ++ sanitizeLabel workspaceName ++ "-default-sidecar"

def containerName (workspaceName nodeId : String) : String :=
  "fghj-" ++ sanitizeLabel workspaceName ++ "-default-" ++ sanitizeLabel nodeId

/-- The Docker volume of a named mount, qualified by the node that owns it unless it is shared. -/
def deriveVolumeName (name : String) (owner : Option String) (workspaceName : String) : String :=
  let key :=
    match owner with
    | some owner => name ++ "." ++ owner
    | none => name
  "fghj-vol-" ++ sanitizeLabel (deriveDomain key workspaceName .http)

end Orchestrator

/-! ## Flattened texts by their words -/

/-- The lower case of a character, as far as flattening sees it. -/
def lowercase (char : Char) : List Char :=
  if char = '\u212a' then ['k'] else if char = '\u0130' then ['i', '\u0307'] else [char.toLower]

/-- What flattening keeps of a text: its runs of letters and digits, in lower case. -/
def labelWords (text : String) : List (List Char) :=
  Words.words Char.isAlphanum (text.toList.flatMap lowercase)

theorem hyphen_outside : Char.isAlphanum '-' = false := rfl

theorem toList_sanitizeLabel (text : String) :
    (sanitizeLabel text).toList = Words.joined '-' (labelWords text) := by
  have flattened : (sanitizeLabel text).toList = Words.trimmed '-'
      ((text.toList.flatMap lowercase).foldl (Words.push Char.isAlphanum '-') []) :=
    String.toList_ofList
  rw [flattened]
  exact Words.trimmed_foldl_push hyphen_outside _

/-- Two texts are flattened alike exactly when they have the same words. -/
theorem sanitizeLabel_eq_iff (text other : String) :
    sanitizeLabel text = sanitizeLabel other ↔ labelWords text = labelWords other := by
  rw [← String.toList_inj, toList_sanitizeLabel, toList_sanitizeLabel]
  exact Words.joined_words_inj hyphen_outside

theorem labelWords_dot (front back : String) :
    labelWords (front ++ "." ++ back) = labelWords front ++ labelWords back := by
  have outside : Char.isAlphanum '.' = false := rfl
  rw [labelWords, String.toList_append, String.toList_append, List.append_assoc,
    List.flatMap_append, List.flatMap_append]
  exact Words.words_append_cons _ _ outside

theorem lowercase_of_mem {char kept : Char} (member : kept ∈ lowercase char)
    (alphanumeric : kept.isAlphanum) : lowercase kept = [kept] := by
  have ascii : kept ≠ '\u212A' ∧ kept ≠ '\u0130' := by
    constructor
    · rintro rfl
      cases alphanumeric
    · rintro rfl
      cases alphanumeric
  have lower : kept.toLower = kept := by
    unfold lowercase at member
    split at member
    · obtain rfl := List.mem_singleton.mp member
      rfl
    · split at member
      · rcases List.mem_pair.mp member with rfl | rfl
        · rfl
        · rfl
      · obtain rfl := List.mem_singleton.mp member
        unfold Char.toLower
        grind
  simp [lowercase, ascii, lower]

theorem lowercase_of_mem_sanitizeLabel {text : String} {char : Char}
    (member : char ∈ (sanitizeLabel text).toList) : lowercase char = [char] := by
  rw [toList_sanitizeLabel] at member
  rcases Words.mem_joined member with rfl | ⟨word, listed, inside⟩
  · rfl
  · obtain ⟨alphanumeric, held⟩ := Words.mem_of_mem_words listed char inside
    obtain ⟨source, -, lowered⟩ := List.mem_flatMap.mp held
    exact lowercase_of_mem lowered alphanumeric

theorem labelWords_sanitizeLabel (text : String) :
    labelWords (sanitizeLabel text) = labelWords text := by
  have unchanged : (sanitizeLabel text).toList.flatMap lowercase = (sanitizeLabel text).toList := by
    rw [List.flatMap_congr fun _ => lowercase_of_mem_sanitizeLabel, List.flatMap_singleton']
  rw [labelWords, unchanged, toList_sanitizeLabel]
  exact Words.words_joined_words hyphen_outside _

end Fghj
