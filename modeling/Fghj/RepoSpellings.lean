import Fghj.Library.LowerCase
import Fghj.RepoUrl

/-!
# Spellings of a repo's URL

A remote is a host, a path on it and a repo's name, and each of the five forms spells it with a
scheme, a user or neither, in any case, and with or without the endings. The normal form is told of
a spelling exactly if its scheme and its user are in small letters, no colon of an address is taken
for the one behind a host, and no slash hides the suffix or capitals do.
-/

namespace Fghj
namespace RepoUrl

open Text

/-! ## Remotes -/

/-- What may stand between two slashes. -/
def isPart (part : List Char) : Bool :=
  !part.isEmpty && part.all fun char => char != '/' && !isWhitespace char

structure Remote where
  host : List Char
  /-- The folders above the repo. -/
  path : List (List Char)
  name : List Char
  host_part : isPart host ∧ '@' ∉ host
  path_parts : path ≠ [] ∧ ∀ segment ∈ path, isPart segment
  name_part : isPart name ∧ ¬".git".toList <:+ toAsciiLowercase name

/-- The folders, each with the slash that follows it. -/
def Remote.folder (remote : Remote) : List Char := remote.path.flatMap (· ++ ['/'])

/-- The host and the path. -/
def Remote.address (remote : Remote) : List Char :=
  remote.host ++ '/' :: (remote.folder ++ remote.name)

/-- The same but for the case. -/
def Remote.Same (toLowercase : String → String) (remote other : Remote) : Prop :=
  lower toLowercase remote.host = lower toLowercase other.host ∧
    remote.path.map (lower toLowercase) = other.path.map (lower toLowercase) ∧
    lower toLowercase remote.name = lower toLowercase other.name

inductive Form where
  | ssh
  | sshUser
  | https
  | http
  /-- The host and the path with a colon between them. -/
  | scp
  deriving DecidableEq

def Form.scheme : Form → List Char
  | .ssh | .sshUser => "ssh://".toList
  | .https => "https://".toList
  | .http => "http://".toList
  | .scp => []

def Form.user : Form → List Char
  | .sshUser | .scp => "git@".toList
  | .ssh | .https | .http => []

def Form.separator : Form → Char
  | .scp => ':'
  | .ssh | .sshUser | .https | .http => '/'

/-- A remote as it is written. -/
structure Spelling where
  remote : Remote
  form : Form
  scheme : List Char
  user : List Char
  suffix : List Char
  slash : Bool
  scheme_case : toAsciiLowercase scheme = form.scheme
  user_case : toAsciiLowercase user = form.user
  suffix_case : suffix = [] ∨ toAsciiLowercase suffix = ".git".toList

def Spelling.front (spelling : Spelling) : List Char :=
  spelling.remote.host ++ spelling.form.separator :: spelling.remote.folder

def Spelling.tail (spelling : Spelling) : List Char :=
  spelling.remote.name ++ (spelling.suffix ++ if spelling.slash then ['/'] else [])

def Spelling.text (spelling : Spelling) : List Char :=
  spelling.scheme ++ (spelling.user ++ (spelling.front ++ spelling.tail))

def Spelling.url (spelling : Spelling) : String := String.ofList spelling.text

/-- Capitals or a slash do not hide the suffix. -/
def Spelling.Ends (spelling : Spelling) : Prop :=
  spelling.suffix = [] ∨ spelling.suffix = ".git".toList ∧ spelling.slash = false

/-- The colon behind a host is the first colon, and an address without one has none. -/
def Spelling.Colon (spelling : Spelling) : Prop :=
  match spelling.form with
  | .scp => ':' ∉ spelling.remote.host
  | .sshUser => ':' ∉ spelling.remote.address
  | .ssh | .https | .http => True

/-- What is taken off is spelled the way it is looked for. -/
structure Spelling.Plain (spelling : Spelling) : Prop where
  scheme : spelling.scheme = spelling.form.scheme
  user : spelling.user = spelling.form.user
  colon : spelling.Colon
  ends : spelling.Ends

/-! ## Stages -/

def stripUser (text : List Char) : List Char :=
  match stripPrefix "git@".toList text with
  | some rest => replaceColon rest
  | none => text

def trimEnds (text : List Char) : List Char :=
  trimEndMatches ['/'] (trimEndMatches ".git".toList text)

/-- What the normal form has the lower case of. -/
def kept (repo : List Char) : List Char := trimEnds (stripUser (stripScheme (trim repo)))

variable {toLowercase : String → String}

theorem toList_normalizeRepoUrl (toLowercase : String → String) (repo : String) :
    (normalizeRepoUrl toLowercase repo).toList = lower toLowercase (kept repo.toList) := rfl

def schemes : List (List Char) := ["ssh://".toList, "https://".toList, "http://".toList]

theorem eq_of_prefix_of_schemes :
    ∀ scheme ∈ schemes, ∀ other ∈ schemes, scheme <+: other → scheme = other := by decide

theorem small_of_schemes : ∀ scheme ∈ schemes, toAsciiLowercase scheme = scheme := by
  decide

theorem stripPrefix_other {pattern front : List Char} (left : ¬pattern <+: front)
    (right : ¬front <+: pattern) (back : List Char) :
    stripPrefix pattern (front ++ back) = none := by
  refine stripPrefix_eq_none fun starts => ?_
  rcases List.prefix_or_prefix_of_prefix starts (List.prefix_append front back) with
    shorter | longer
  · exact left shorter
  · exact right longer

theorem stripScheme_append {scheme : List Char} (known : scheme ∈ schemes) (rest : List Char) :
    stripScheme (scheme ++ rest) = rest := by
  simp only [schemes, List.mem_cons, List.not_mem_nil, or_false] at known
  rcases known with rfl | rfl | rfl
  · rw [stripScheme, stripPrefix_append]
  · rw [stripScheme, stripPrefix_other (by decide) (by decide), stripPrefix_append]
  · rw [stripScheme, stripPrefix_other (by decide) (by decide),
      stripPrefix_other (by decide) (by decide), stripPrefix_append,
      Option.getD_some]

variable {text : List Char}

theorem stripScheme_eq_self (none : ∀ scheme ∈ schemes, ¬scheme <+: text) :
    stripScheme text = text := by
  simp only [schemes, List.forall_mem_cons] at none
  rw [stripScheme, stripPrefix_eq_none none.1, stripPrefix_eq_none none.2.1,
    stripPrefix_eq_none none.2.2.1, Option.getD_none]

theorem stripUser_append (rest : List Char) :
    stripUser ("git@".toList ++ rest) = replaceColon rest := by
  rw [stripUser, stripPrefix_append]

theorem stripUser_eq_self (none : ¬"git@".toList <+: text) : stripUser text = text := by
  rw [stripUser, stripPrefix_eq_none none]

theorem replaceColon_eq_self (absent : ':' ∉ text) : replaceColon text = text := by
  induction text with
  | nil => rfl
  | cons char text ih =>
      rw [List.mem_cons, not_or] at absent
      rw [replaceColon, if_neg (Ne.symm absent.1), ih absent.2]

theorem replaceColon_append {front : List Char} (absent : ':' ∉ front) (back : List Char) :
    replaceColon (front ++ ':' :: back) = front ++ '/' :: back := by
  induction front with
  | nil => rfl
  | cons char front ih =>
      rw [List.mem_cons, not_or] at absent
      rw [List.cons_append, replaceColon, if_neg (Ne.symm absent.1), ih absent.2, List.cons_append]

/-! ## Addresses -/

variable {part : List Char}

theorem isPart_iff : isPart part ↔ part ≠ [] ∧ ∀ char ∈ part, char ≠ '/' ∧ ¬isWhitespace char := by
  simp [isPart]

theorem slash_not_mem (known : isPart part) : '/' ∉ part :=
  fun member => ((isPart_iff.mp known).2 '/' member).1 rfl

theorem slash_mem_lower (lowercases : Lowercases toLowercase) :
    '/' ∈ lower toLowercase text ↔ '/' ∈ text :=
  lowercases.mem (by decide) (by decide)

theorem lower_folder_inj (lowercases : Lowercases toLowercase) {name other : List Char}
    (plain : '/' ∉ name) (otherPlain : '/' ∉ other) :
    ∀ {path others : List (List Char)}, (∀ segment ∈ path, '/' ∉ segment) →
      (∀ segment ∈ others, '/' ∉ segment) →
      (lower toLowercase (path.flatMap (· ++ ['/']) ++ name) =
          lower toLowercase (others.flatMap (· ++ ['/']) ++ other) ↔
        path.map (lower toLowercase) = others.map (lower toLowercase) ∧
          lower toLowercase name = lower toLowercase other)
  | [], [], _, _ => by simp
  | [], segment :: others, _, _ => by
      refine ⟨fun same => ?_, fun both => by cases both.1⟩
      refine absurd ((slash_mem_lower lowercases).mp ?_) plain
      have inside : '/' ∈ (segment :: others).flatMap (· ++ ['/']) ++ other := by simp
      rw [List.flatMap_nil, List.nil_append] at same
      exact same ▸ (slash_mem_lower lowercases).mpr inside
  | segment :: path, [], _, _ => by
      refine ⟨fun same => ?_, fun both => by cases both.1⟩
      refine absurd ((slash_mem_lower lowercases).mp ?_) otherPlain
      have inside : '/' ∈ (segment :: path).flatMap (· ++ ['/']) ++ name := by simp
      rw [List.flatMap_nil, List.nil_append] at same
      exact same ▸ (slash_mem_lower lowercases).mpr inside
  | segment :: path, next :: others, free, othersFree => by
      rw [List.forall_mem_cons] at free othersFree
      have ih := lower_folder_inj lowercases plain otherPlain free.2 othersFree.2
      simp only [List.flatMap_cons, List.append_assoc, List.cons_append, List.nil_append,
        lowercases.slash, List.map_cons, List.cons.injEq, and_assoc]
      rw [append_separator_inj (fun inside => free.1 ((slash_mem_lower lowercases).mp inside))
        (fun inside => othersFree.1 ((slash_mem_lower lowercases).mp inside)), ih]

/-- Two addresses are one in lower case exactly if their remotes are the same but for the case. -/
theorem lower_address_inj (lowercases : Lowercases toLowercase) (remote other : Remote) :
    lower toLowercase remote.address = lower toLowercase other.address ↔
      remote.Same toLowercase other := by
  have free : ∀ remote : Remote, ∀ segment ∈ remote.path, '/' ∉ segment :=
    fun remote segment member => slash_not_mem (remote.path_parts.2 segment member)
  rw [Remote.address, Remote.address, lowercases.slash, lowercases.slash,
    append_separator_inj
      (fun inside => slash_not_mem remote.host_part.1 ((slash_mem_lower lowercases).mp inside))
      (fun inside => slash_not_mem other.host_part.1 ((slash_mem_lower lowercases).mp inside)),
    Remote.folder, Remote.folder, lower_folder_inj lowercases (slash_not_mem remote.name_part.1)
      (slash_not_mem other.name_part.1) (free remote) (free other)]
  simp [Remote.Same]

theorem Remote.solid (remote : Remote) :
    ∀ char ∈ remote.host ++ (remote.folder ++ remote.name), ¬isWhitespace char := by
  intro char member
  simp only [folder, List.mem_append, List.mem_flatMap, List.mem_singleton] at member
  rcases member with inHost | ⟨segment, listed, inSegment | rfl⟩ | inName
  · exact ((isPart_iff.mp remote.host_part.1).2 char inHost).2
  · exact ((isPart_iff.mp (remote.path_parts.2 segment listed)).2 char inSegment).2
  · decide
  · exact ((isPart_iff.mp remote.name_part.1).2 char inName).2

theorem Remote.folder_eq (remote : Remote) : ∃ above, remote.folder = above ++ ['/'] := by
  obtain ⟨path, last, ends⟩ := (List.eq_nil_or_concat remote.path).resolve_left remote.path_parts.1
  refine ⟨path.flatMap (· ++ ['/']) ++ last, ?_⟩
  simp [folder, ends]

/-! ## Spellings -/

namespace Spelling

variable (spelling : Spelling) {symbol : Char}

theorem plain_symbols {text small : List Char} (lowered : toAsciiLowercase text = small)
    (plain : symbol.isAlpha = false) (absent : symbol ∉ small) : symbol ∉ text :=
  fun member => absent (lowered ▸ (mem_toAsciiLowercase plain).mpr member)

theorem solid_of_small {text small : List Char} (lowered : toAsciiLowercase text = small)
    (solid : small.any isWhitespace = false) : ∀ char ∈ text, ¬isWhitespace char := by
  intro char member
  rw [← isWhitespace_toLower]
  exact List.any_eq_false.mp solid _ (lowered ▸ List.mem_map_of_mem member)

theorem toList_url : spelling.url.toList = spelling.text := String.toList_ofList

theorem trim_text : trim spelling.text = spelling.text := by
  apply trim_eq_self
  have scheme : ∀ char ∈ spelling.scheme, ¬isWhitespace char := by
    refine solid_of_small spelling.scheme_case ?_
    cases spelling.form <;> decide
  have user : ∀ char ∈ spelling.user, ¬isWhitespace char := by
    refine solid_of_small spelling.user_case ?_
    cases spelling.form <;> decide
  have suffix : ∀ char ∈ spelling.suffix, ¬isWhitespace char := by
    rcases spelling.suffix_case with none | some
    · rw [none]
      simp
    · exact solid_of_small some (by decide)
  have separator : ¬isWhitespace spelling.form.separator := by
    cases spelling.form <;> decide
  have slash : ∀ char ∈ (if spelling.slash then ['/'] else []), ¬isWhitespace char := by
    intro char member
    split at member
    · rw [List.mem_singleton.mp member]
      decide
    · cases member
  have remote := spelling.remote.solid
  intro char member
  simp only [text, front, tail, List.mem_append, List.mem_cons] at member remote
  grind

/-- A text in another case is not what is looked for. -/
theorem not_prefix_of_case {pattern opening small : List Char}
    (lowered : toAsciiLowercase opening = small) (own : toAsciiLowercase pattern = pattern)
    (apart : pattern <+: small ∨ small <+: pattern → pattern = small ∧ opening ≠ pattern)
    (rest : List Char) : ¬pattern <+: opening ++ rest := by
  intro starts
  have same : pattern = small ∧ opening ≠ pattern := by
    apply apart
    rw [← lowered, ← own]
    exact (List.prefix_or_prefix_of_prefix starts (List.prefix_append opening rest)).imp
      (fun shorter => shorter.map _) fun longer => longer.map _
  have long : pattern.length = opening.length := by
    rw [same.1, ← lowered, toAsciiLowercase, List.length_map]
  obtain ⟨more, whole⟩ := starts
  exact same.2 (List.append_inj_left whole long).symm

theorem small_git : toAsciiLowercase "git@".toList = "git@".toList := by decide

theorem form_scheme_cases (form : Form) : form.scheme ∈ schemes ∧ form ≠ .scp ∨ form = .scp := by
  cases form <;> decide

theorem scp_parts {form : Form} (scp : form = .scp) :
    form.scheme = [] ∧ form.user = "git@".toList := by
  subst scp
  exact ⟨rfl, rfl⟩

theorem user_of_sshUser {form : Form} (sshUser : form = .sshUser) : form.user = "git@".toList := by
  subst sshUser
  rfl

theorem user_apart : ∀ scheme ∈ schemes,
    ¬(scheme <+: "git@".toList ∨ "git@".toList <+: scheme) := by
  decide

theorem stripScheme_text (right : spelling.scheme = spelling.form.scheme) :
    stripScheme spelling.text = spelling.user ++ (spelling.front ++ spelling.tail) := by
  rw [text, right]
  rcases form_scheme_cases spelling.form with ⟨known, -⟩ | scp
  · rw [stripScheme_append known]
  · rw [(scp_parts scp).1, List.nil_append]
    refine stripScheme_eq_self fun scheme known => ?_
    refine not_prefix_of_case (spelling.user_case.trans (scp_parts scp).2)
      (small_of_schemes scheme known) (fun related => ?_) _
    exact absurd related (user_apart scheme known)

theorem stripScheme_text_of_ne (wrong : spelling.scheme ≠ spelling.form.scheme) :
    stripScheme spelling.text = spelling.text := by
  rcases form_scheme_cases spelling.form with ⟨known, -⟩ | scp
  · refine stripScheme_eq_self fun scheme listed => ?_
    refine not_prefix_of_case spelling.scheme_case (small_of_schemes scheme listed) ?_ _
    intro related
    have same : scheme = spelling.form.scheme := by
      rcases related with shorter | longer
      · exact eq_of_prefix_of_schemes scheme listed _ known shorter
      · exact (eq_of_prefix_of_schemes _ known scheme listed longer).symm
    exact ⟨same, fun taken => wrong (taken.trans same)⟩
  · have scheme := spelling.scheme_case
    rw [(scp_parts scp).1, toAsciiLowercase, List.map_eq_nil_iff] at scheme
    exact absurd (scheme.trans (scp_parts scp).1.symm) wrong

theorem not_user_of_host {host : List Char} (free : '@' ∉ host) (rest : List Char) :
    ¬"git@".toList <+: host ++ '/' :: rest := by
  intro starts
  rcases List.prefix_or_prefix_of_prefix starts (List.prefix_append host _) with
    inside | ⟨more, whole⟩
  · exact free (inside.subset (by decide))
  · rw [← whole, List.prefix_append_right_inj] at starts
    cases more with
    | nil => exact free (by rw [← List.append_nil host, whole]; decide)
    | cons char more =>
        obtain ⟨rfl, -⟩ := List.cons_prefix_cons.mp starts
        have inside : '/' ∈ "git@".toList := by
          rw [← whole]
          simp
        exact absurd inside (by decide)

theorem form_user_cases (form : Form) :
    form.user = [] ∧ form.separator = '/' ∨ form.user = "git@".toList ∧ form ≠ .ssh ∧
      form ≠ .https ∧ form ≠ .http := by
  cases form <;> decide

theorem stripUser_of_case (wrong : spelling.user ≠ spelling.form.user) :
    stripUser (spelling.user ++ (spelling.front ++ spelling.tail)) =
      spelling.user ++ (spelling.front ++ spelling.tail) := by
  apply stripUser_eq_self
  rcases form_user_cases spelling.form with ⟨none, -⟩ | ⟨git, -⟩
  · have user := spelling.user_case
    rw [none, toAsciiLowercase, List.map_eq_nil_iff] at user
    exact absurd (user.trans none.symm) wrong
  · refine not_prefix_of_case (spelling.user_case.trans git) small_git (fun _ => ⟨rfl, ?_⟩) _
    exact fun taken => wrong (taken.trans git.symm)

theorem stripUser_of_scheme (wrong : spelling.scheme ≠ spelling.form.scheme) :
    stripUser spelling.text = spelling.text := by
  apply stripUser_eq_self
  rcases form_scheme_cases spelling.form with ⟨known, -⟩ | scp
  · refine not_prefix_of_case spelling.scheme_case small_git (fun related => ?_) _
    exact absurd related.symm (user_apart _ known)
  · have scheme := spelling.scheme_case
    rw [(scp_parts scp).1, toAsciiLowercase, List.map_eq_nil_iff] at scheme
    exact absurd (scheme.trans (scp_parts scp).1.symm) wrong

theorem front_tail (spelling : Spelling) : spelling.front ++ spelling.tail =
    spelling.remote.host ++
      spelling.form.separator :: (spelling.remote.folder ++ spelling.tail) := by
  rw [front, List.append_assoc, List.cons_append]

/-- What follows the name. -/
def rest (spelling : Spelling) : List Char :=
  spelling.suffix ++ if spelling.slash then ['/'] else []

theorem symbol_not_mem_rest (plain : symbol.isAlpha = false) (absent : symbol ∉ ".git".toList)
    (other : symbol ≠ '/') : symbol ∉ spelling.rest := by
  intro member
  rcases List.mem_append.mp member with inside | slash
  · rcases spelling.suffix_case with none | some
    · rw [none] at inside
      cases inside
    · exact plain_symbols some plain absent inside
  · split at slash
    · exact other (List.mem_singleton.mp slash)
    · cases slash

/-- Plainly spelled, only the address and what follows it are left. -/
theorem stripUser_plain (right : spelling.user = spelling.form.user) (colon : spelling.Colon) :
    stripUser (spelling.user ++ (spelling.front ++ spelling.tail)) =
      spelling.remote.address ++ spelling.rest := by
  have whole : spelling.remote.host ++ '/' :: (spelling.remote.folder ++ spelling.tail) =
      spelling.remote.address ++ spelling.rest := by
    simp [Remote.address, tail, rest]
  have plain := not_user_of_host spelling.remote.host_part.2
    (spelling.remote.folder ++ spelling.tail)
  rw [right, front_tail]
  cases form : spelling.form with
  | ssh | https | http =>
      rw [Form.user, List.nil_append, Form.separator, stripUser_eq_self plain, whole]
  | sshUser =>
      rw [Colon, form] at colon
      have absent : ':' ∉ spelling.remote.address ++ spelling.rest := by
        rw [List.mem_append, not_or]
        exact ⟨colon, spelling.symbol_not_mem_rest (by decide) (by decide) (by decide)⟩
      rw [Form.user, stripUser_append, Form.separator, whole, replaceColon_eq_self absent]
  | scp =>
      rw [Colon, form] at colon
      rw [Form.user, stripUser_append, Form.separator, replaceColon_append colon, whole]

theorem not_suffix_address (free : '/' ∉ part) (remote : Remote) (apart : ¬part <:+ remote.name) :
    ¬part <:+ remote.address := by
  obtain ⟨above, folder⟩ := remote.folder_eq
  intro ends
  have named : remote.name <:+ remote.address :=
    ⟨remote.host ++ '/' :: remote.folder, by simp [Remote.address]⟩
  have slashed : '/' :: remote.name <:+ remote.address :=
    ⟨remote.host ++ '/' :: above, by simp [Remote.address, folder]⟩
  rcases List.suffix_or_suffix_of_suffix ends slashed with inside | longer
  · rcases List.suffix_cons_iff.mp inside with rfl | within
    · exact free List.mem_cons_self
    · exact apart within
  · exact free (longer.subset List.mem_cons_self)

theorem git_not_suffix (remote : Remote) : ¬".git".toList <:+ remote.name := by
  intro ends
  refine remote.name_part.2 ?_
  have small : toAsciiLowercase ".git".toList = ".git".toList := by decide
  rw [← small]
  exact ends.map _

theorem slash_not_suffix (some : part ≠ []) (free : '/' ∉ part) (front : List Char) :
    ¬['/'] <:+ front ++ part := by
  intro ends
  rcases List.suffix_or_suffix_of_suffix ends (List.suffix_append front part) with inside | shorter
  · exact free (inside.subset List.mem_cons_self)
  · rcases List.suffix_cons_iff.mp shorter with rfl | none
    · exact free List.mem_cons_self
    · exact some (List.suffix_nil.mp none)

theorem not_suffix_of_slash (some : part ≠ []) (free : '/' ∉ part) (front : List Char) :
    ¬part <:+ front ++ ['/'] := by
  intro ends
  rcases List.suffix_or_suffix_of_suffix ends (List.suffix_append front ['/']) with inside | longer
  · rcases List.suffix_cons_iff.mp inside with rfl | none
    · exact free List.mem_cons_self
    · exact some (List.suffix_nil.mp none)
  · exact free (longer.subset List.mem_cons_self)

theorem slash_not_mem_suffix : '/' ∉ spelling.suffix := by
  rcases spelling.suffix_case with none | git
  · simp [none]
  · exact plain_symbols git (by decide) (by decide)

theorem not_slashed (remote : Remote) {suffix : List Char} (free : '/' ∉ suffix) :
    ¬['/'] <:+ remote.address ++ suffix := by
  have parts : remote.address ++ suffix =
      (remote.host ++ '/' :: remote.folder) ++ (remote.name ++ suffix) := by
    simp [Remote.address]
  rw [parts]
  refine slash_not_suffix (List.append_ne_nil_of_left_ne_nil
    (isPart_iff.mp remote.name_part.1).1 _) ?_ _
  rw [List.mem_append, not_or]
  exact ⟨slash_not_mem remote.name_part.1, free⟩

/-- A suffix in another case is not the suffix that is taken off. -/
theorem not_suffix_of_case {suffix : List Char} (lowered : toAsciiLowercase suffix = ".git".toList)
    (other : suffix ≠ ".git".toList) (front : List Char) : ¬".git".toList <:+ front ++ suffix := by
  intro ends
  have long : suffix.length = ".git".toList.length := by
    rw [← lowered, toAsciiLowercase, List.length_map]
  obtain ⟨more, whole⟩ := ends
  exact other (List.append_inj_right' whole long.symm).symm

theorem trim_suffix {front : List Char} (bare : ¬".git".toList <:+ front) :
    trimEndMatches ".git".toList (front ++ spelling.suffix) =
      front ++ if spelling.suffix = ".git".toList then [] else spelling.suffix := by
  have some : ".git".toList ≠ [] := by decide
  by_cases git : spelling.suffix = ".git".toList
  · have one := trimEndMatches_replicate some bare 1
    rw [List.replicate_one, List.flatten_singleton] at one
    rw [git, if_pos rfl, one, List.append_nil]
  · rw [if_neg git]
    apply trimEndMatches_eq_self some
    rcases spelling.suffix_case with none | other
    · rwa [none, List.append_nil]
    · exact not_suffix_of_case other git _

/-- The endings are taken off, unless a slash or capitals hide the suffix. -/
theorem trimEnds_address (spelling : Spelling) :
    trimEnds (spelling.remote.address ++ spelling.rest) =
      spelling.remote.address ++
        (if spelling.suffix = ".git".toList ∧ spelling.slash = false then []
        else spelling.suffix) := by
  have free : '/' ∉ ".git".toList := by decide
  have some : ".git".toList ≠ [] := by decide
  have bare : ¬".git".toList <:+ spelling.remote.address :=
    not_suffix_address free _ (git_not_suffix _)
  have unslashed : ¬['/'] <:+ spelling.remote.address := by
    simpa using not_slashed spelling.remote List.not_mem_nil
  have suffixUnslashed : ¬['/'] <:+ spelling.remote.address ++ spelling.suffix :=
    not_slashed _ spelling.slash_not_mem_suffix
  cases slash : spelling.slash with
  | true =>
      have one := trimEndMatches_replicate (List.cons_ne_nil '/' []) suffixUnslashed 1
      rw [List.replicate_one, List.flatten_singleton] at one
      rw [rest, slash, if_pos rfl, ← List.append_assoc, trimEnds,
        trimEndMatches_eq_self some (not_suffix_of_slash some free _), one, if_neg (by simp)]
  | false =>
      rw [rest, slash, if_neg (by decide), List.append_nil, trimEnds, spelling.trim_suffix bare]
      by_cases git : spelling.suffix = ".git".toList
      · rw [if_pos git, if_pos ⟨git, rfl⟩, List.append_nil,
          trimEndMatches_eq_self (List.cons_ne_nil _ _) unslashed]
      · rw [if_neg git, if_neg (fun both => git both.1),
          trimEndMatches_eq_self (List.cons_ne_nil _ _) suffixUnslashed]

theorem kept_plain (plain : spelling.Plain) : kept spelling.text = spelling.remote.address := by
  rw [kept, spelling.trim_text, spelling.stripScheme_text plain.scheme,
    spelling.stripUser_plain plain.user plain.colon, spelling.trimEnds_address]
  rcases plain.ends with none | both
  · rw [none]
    simp
  · rw [if_pos both, List.append_nil]

/-! ## What else is kept -/

theorem count_trimEnds (plain : symbol ∉ ".git".toList) (other : symbol ≠ '/') (text : List Char) :
    (trimEnds text).count symbol = text.count symbol := by
  rw [trimEnds, count_trimEndMatches (List.cons_ne_nil _ _) (by simpa using other),
    count_trimEndMatches (by decide) plain]

theorem count_replaceColon (inside : ':' ∈ text) :
    (replaceColon text).count ':' + 1 = text.count ':' := by
  obtain ⟨front, back, rfl, absent⟩ := List.eq_append_cons_of_mem inside
  rw [replaceColon_append absent]
  simp [List.count_append, Nat.add_assoc]

/-- In the text of a spelling, symbols that no ending holds are those of its parts. -/
theorem count_front_tail (plain : symbol.isAlpha = false) (absent : symbol ∉ ".git".toList)
    (other : symbol ≠ '/') :
    (spelling.front ++ spelling.tail).count symbol = spelling.remote.address.count symbol +
      [spelling.form.separator].count symbol := by
  have none : spelling.rest.count symbol = 0 :=
    List.count_eq_zero.mpr (spelling.symbol_not_mem_rest plain absent other)
  have slash : ['/'].count symbol = 0 := by simpa [List.count_eq_zero] using other
  have parts : spelling.front ++ spelling.tail = spelling.remote.host ++
      ([spelling.form.separator] ++ (spelling.remote.folder ++ (spelling.remote.name ++
        spelling.rest))) := by
    simp [front, tail, rest]
  have address : spelling.remote.address = spelling.remote.host ++
      (['/'] ++ (spelling.remote.folder ++ spelling.remote.name)) := by
    simp [Remote.address]
  rw [parts, address]
  simp only [List.count_append, none, slash]
  omega

theorem trimEnds_prefix (text : List Char) : trimEnds text <+: text := by
  obtain ⟨⟨suffixes, inner⟩, -⟩ := trimEndMatches_spec (by decide : ".git".toList ≠ [])
    text
  obtain ⟨⟨slashes, outer⟩, -⟩ := trimEndMatches_spec (List.cons_ne_nil '/' [])
    (trimEndMatches ".git".toList text)
  exact List.IsPrefix.trans ⟨_, outer.symm⟩ ⟨_, inner.symm⟩

theorem count_of_case {text small : List Char} (lowered : toAsciiLowercase text = small)
    (plain : symbol.isAlpha = false) : text.count symbol = small.count symbol := by
  rw [← lowered, count_toAsciiLowercase plain]

section Differs

variable {spelling} (lowercases : Lowercases toLowercase)
include lowercases

/-- A scheme that is not taken off keeps its colon. -/
theorem differs_of_scheme (wrong : spelling.scheme ≠ spelling.form.scheme) :
    lower toLowercase (kept spelling.text) ≠ lower toLowercase spelling.remote.address := by
  intro same
  have counts := congrArg (List.count ':') same
  rw [lowercases.count (by decide) (by decide), lowercases.count (by decide) (by decide), kept,
    spelling.trim_text, spelling.stripScheme_text_of_ne wrong, spelling.stripUser_of_scheme wrong,
    count_trimEnds (by decide) (by decide), text, List.count_append, List.count_append,
    spelling.count_front_tail (by decide) (by decide) (by decide),
    count_of_case spelling.scheme_case (by decide)] at counts
  have one : spelling.form.scheme.count ':' = 1 := by
    rcases form_scheme_cases spelling.form with ⟨known, -⟩ | scp
    · revert known
      generalize spelling.form.scheme = scheme
      revert scheme
      decide
    · have scheme := spelling.scheme_case
      rw [(scp_parts scp).1, toAsciiLowercase, List.map_eq_nil_iff] at scheme
      exact absurd (scheme.trans (scp_parts scp).1.symm) wrong
  omega

/-- A user that is not taken off keeps its sign. -/
theorem differs_of_user (scheme : spelling.scheme = spelling.form.scheme)
    (wrong : spelling.user ≠ spelling.form.user) :
    lower toLowercase (kept spelling.text) ≠ lower toLowercase spelling.remote.address := by
  intro same
  have counts := congrArg (List.count '@') same
  rw [lowercases.count (by decide) (by decide), lowercases.count (by decide) (by decide), kept,
    spelling.trim_text, spelling.stripScheme_text scheme, spelling.stripUser_of_case wrong,
    count_trimEnds (by decide) (by decide), List.count_append,
    spelling.count_front_tail (by decide) (by decide) (by decide),
    count_of_case spelling.user_case (by decide)] at counts
  have one : spelling.form.user.count '@' = 1 := by
    rcases form_user_cases spelling.form with ⟨none, -⟩ | ⟨git, -⟩
    · have user := spelling.user_case
      rw [none, toAsciiLowercase, List.map_eq_nil_iff] at user
      exact absurd (user.trans none.symm) wrong
    · rw [git]
      decide
  omega

/-- A colon of the address becomes a slash. -/
theorem differs_of_colon (scheme : spelling.scheme = spelling.form.scheme)
    (user : spelling.user = spelling.form.user) (wrong : ¬spelling.Colon) :
    lower toLowercase (kept spelling.text) ≠ lower toLowercase spelling.remote.address := by
  intro same
  rw [kept, spelling.trim_text, spelling.stripScheme_text scheme, user] at same
  cases form : spelling.form with
  | ssh | https | http =>
      rw [Colon, form] at wrong
      exact wrong trivial
  | sshUser =>
      rw [Colon, form, not_not] at wrong
      rw [user_of_sshUser form, stripUser_append] at same
      have counts := congrArg (List.count ':') same
      have whole := spelling.count_front_tail (by decide : ':'.isAlpha = false) (by decide)
        (by decide)
      have inside : ':' ∈ spelling.front ++ spelling.tail := by
        rw [← List.count_pos_iff, whole]
        exact Nat.add_pos_left (List.count_pos_iff.mpr wrong) _
      rw [lowercases.count (by decide) (by decide), lowercases.count (by decide) (by decide),
        count_trimEnds (by decide) (by decide)] at counts
      rw [← count_replaceColon inside, form, counts] at whole
      simp [Form.separator] at whole
  | scp =>
      rw [Colon, form, not_not] at wrong
      rw [(scp_parts form).2, stripUser_append, front_tail] at same
      obtain ⟨front, back, host, absent⟩ := List.eq_append_cons_of_mem wrong
      rw [host, List.append_assoc, List.cons_append, replaceColon_append absent] at same
      generalize back ++ _ = after at same
      have free : '/' ∉ front := by
        intro inside
        exact slash_not_mem spelling.remote.host_part.1 (by rw [host]; simp [inside])
      have slashed : '/' ∈ trimEnds (front ++ '/' :: after) := by
        rw [← slash_mem_lower lowercases, same, slash_mem_lower lowercases]
        simp [Remote.address]
      -- so the slash that took the colon's place is still there
      obtain ⟨more, whole⟩ : ∃ more, front ++ '/' :: more = trimEnds (front ++ '/' :: after) := by
        have cut := trimEnds_prefix (front ++ '/' :: after)
        rcases List.prefix_or_prefix_of_prefix cut (List.prefix_append front _) with
          shorter | ⟨more, whole⟩
        · exact absurd (shorter.subset slashed) free
        · rw [← whole] at cut slashed
          rw [List.prefix_append_right_inj] at cut
          cases more with
          | nil => exact absurd (by simpa using slashed) free
          | cons char more =>
              obtain ⟨rfl, -⟩ := List.cons_prefix_cons.mp cut
              exact ⟨more, whole⟩
      rw [← whole, Remote.address, lowercases.slash, lowercases.slash, append_separator_inj
        (fun inside => free ((slash_mem_lower lowercases).mp inside))
        (fun inside => slash_not_mem spelling.remote.host_part.1
          ((slash_mem_lower lowercases).mp inside))] at same
      have colon : ':' ∈ lower toLowercase front := by
        rw [same.1, lowercases.mem (by decide) (by decide)]
        exact wrong
      exact absent ((lowercases.mem (by decide) (by decide)).mp colon)

/-- A suffix that is not taken off keeps its dot. -/
theorem differs_of_ends (scheme : spelling.scheme = spelling.form.scheme)
    (user : spelling.user = spelling.form.user) (colon : spelling.Colon) (wrong : ¬spelling.Ends) :
    lower toLowercase (kept spelling.text) ≠ lower toLowercase spelling.remote.address := by
  intro same
  rw [Ends, not_or] at wrong
  have counts := congrArg (List.count '.') same
  rw [lowercases.count (by decide) (by decide), lowercases.count (by decide) (by decide), kept,
    spelling.trim_text, spelling.stripScheme_text scheme, spelling.stripUser_plain user colon,
    spelling.trimEnds_address, if_neg wrong.2, List.count_append,
    count_of_case (spelling.suffix_case.resolve_left wrong.1) (by decide)] at counts
  have one : ".git".toList.count '.' = 1 := by decide
  omega

end Differs

theorem differs (lowercases : Lowercases toLowercase) (wrong : ¬spelling.Plain) :
    lower toLowercase (kept spelling.text) ≠ lower toLowercase spelling.remote.address := by
  by_cases scheme : spelling.scheme = spelling.form.scheme
  · by_cases user : spelling.user = spelling.form.user
    · by_cases colon : spelling.Colon
      · exact differs_of_ends lowercases scheme user colon fun ends =>
          wrong ⟨scheme, user, colon, ends⟩
      · exact differs_of_colon lowercases scheme user colon
    · exact differs_of_user lowercases scheme user
  · exact differs_of_scheme lowercases scheme

/-- The spelling with the usual scheme and no endings. -/
def usual (remote : Remote) : Spelling where
  remote := remote
  form := .https
  scheme := Form.https.scheme
  user := []
  suffix := []
  slash := false
  scheme_case := by decide
  user_case := rfl
  suffix_case := .inl rfl

theorem plain_usual (remote : Remote) : (usual remote).Plain where
  scheme := rfl
  user := rfl
  colon := trivial
  ends := .inl rfl

/-- Plain spellings have one normal form exactly if they spell one remote, and no other spelling has
the normal form of the plain ones. -/
theorem normal_form_iff (lowercases : Lowercases toLowercase) :
    (∀ other : Spelling, other.Plain →
      (normalizeRepoUrl toLowercase spelling.url = normalizeRepoUrl toLowercase other.url ↔
        spelling.remote.Same toLowercase other.remote)) ↔ spelling.Plain := by
  constructor
  · intro told
    by_contra wrong
    have same := (told (usual spelling.remote) (plain_usual spelling.remote)).mpr ⟨rfl, rfl, rfl⟩
    rw [← String.toList_inj, toList_normalizeRepoUrl, toList_normalizeRepoUrl, toList_url,
      toList_url, kept_plain _ (plain_usual _)] at same
    exact spelling.differs lowercases wrong same
  · intro plain other otherPlain
    rw [← String.toList_inj, toList_normalizeRepoUrl, toList_normalizeRepoUrl, toList_url,
      toList_url, kept_plain _ plain, kept_plain _ otherPlain,
      lower_address_inj lowercases]

/-! ## Names -/

/-- The last segment ends in the name, and nothing hides the suffix. -/
def Named : Prop :=
  spelling.slash = false ∧ (spelling.suffix = [] ∨ spelling.suffix = ".git".toList)

theorem takeWhile_last {front part : List Char} (free : '/' ∉ part) :
    ((front ++ '/' :: part).reverse.takeWhile (· ≠ '/')).reverse = part := by
  have plain : ∀ char ∈ part.reverse, decide (char ≠ '/') = true := by
    intro char member
    rw [decide_eq_true_eq]
    rintro rfl
    exact free (List.mem_reverse.mp member)
  rw [List.reverse_append, List.reverse_cons, List.append_assoc, List.takeWhile_append_of_pos plain,
    List.singleton_append, List.takeWhile_cons_of_neg (by decide), List.append_nil,
    List.reverse_reverse]

theorem text_eq : ∃ front, spelling.text = front ++ '/' :: spelling.tail := by
  obtain ⟨above, folder⟩ := spelling.remote.folder_eq
  exact ⟨spelling.scheme ++ (spelling.user ++ (spelling.remote.host ++
    spelling.form.separator :: above)), by simp [text, front, folder]⟩

theorem repoName_of_slash (slash : spelling.slash = true) : repoNameFromUrl spelling.url = "" := by
  obtain ⟨front, whole⟩ := spelling.text_eq
  have ends : spelling.text =
      (front ++ '/' :: (spelling.remote.name ++ spelling.suffix)) ++ '/' :: [] := by
    rw [whole, tail, slash]
    simp
  rw [repoNameFromUrl, spelling.toList_url, ends, takeWhile_last List.not_mem_nil]
  decide

theorem repoName_of_not_slash (slash : spelling.slash = false) :
    (repoNameFromUrl spelling.url).toList =
      spelling.remote.name ++ if spelling.suffix = ".git".toList then [] else spelling.suffix := by
  obtain ⟨front, whole⟩ := spelling.text_eq
  have ends : spelling.text = front ++ '/' :: (spelling.remote.name ++ spelling.suffix) := by
    rw [whole, tail, slash]
    simp
  have free : '/' ∉ spelling.remote.name ++ spelling.suffix := by
    rw [List.mem_append, not_or]
    exact ⟨slash_not_mem spelling.remote.name_part.1, spelling.slash_not_mem_suffix⟩
  rw [repoNameFromUrl, spelling.toList_url, String.toList_ofList, ends, takeWhile_last free,
    spelling.trim_suffix (git_not_suffix _)]

/-- The folder is named after the repo, in whatever case, exactly if nothing hides the suffix and no
slash follows. -/
theorem repoName_iff (lowercases : Lowercases toLowercase) :
    (repoNameFromUrl spelling.url ≠ "" ∧
      lower toLowercase (repoNameFromUrl spelling.url).toList =
        lower toLowercase spelling.remote.name) ↔ spelling.Named := by
  cases slash : spelling.slash with
  | true =>
      constructor
      · intro told
        exact absurd (spelling.repoName_of_slash slash) told.1
      · intro named
        exact absurd (slash.symm.trans named.1) (by decide)
  | false =>
      have name := spelling.repoName_of_not_slash slash
      constructor
      · rintro ⟨-, same⟩
        refine ⟨slash, ?_⟩
        by_contra hidden
        rw [not_or] at hidden
        rw [name, if_neg hidden.2] at same
        have counts := congrArg (List.count '.') same
        rw [lowercases.count (by decide) (by decide), lowercases.count (by decide) (by decide),
          List.count_append, count_of_case (spelling.suffix_case.resolve_left hidden.1) (by decide)]
          at counts
        have one : ".git".toList.count '.' = 1 := by decide
        omega
      · rintro ⟨-, shown⟩
        have whole : (repoNameFromUrl spelling.url).toList = spelling.remote.name := by
          rw [name]
          rcases shown with none | git
          · rw [none]
            simp
          · rw [if_pos git, List.append_nil]
        refine ⟨fun empty => ?_, by rw [whole]⟩
        rw [empty, String.toList_empty] at whole
        exact (isPart_iff.mp spelling.remote.name_part.1).1 whole.symm

end Spelling

/-! ## Once more -/

/-- What is left of a URL without its scheme, its user and its endings. -/
def Body (repo body : List Char) : Prop :=
  ∃ address path : List Char, ∃ slashes suffixes : Nat,
    ((∃ scheme ∈ schemes, trim repo = scheme ++ address) ∨
      address = trim repo ∧ ∀ scheme ∈ schemes, ¬scheme <+: trim repo) ∧
    ((∃ rest, address = "git@".toList ++ rest ∧ path = replaceColon rest) ∨
      path = address ∧ ¬"git@".toList <+: address) ∧
    path = (body ++ (List.replicate slashes ['/']).flatten) ++
      (List.replicate suffixes ".git".toList).flatten

/-- In no case does it start or end with what is taken off. -/
structure Clean (text : List Char) : Prop where
  spaces : trim text = text
  scheme : ∀ scheme ∈ schemes, ¬scheme <+: toAsciiLowercase text
  user : ¬"git@".toList <+: toAsciiLowercase text
  suffix : ¬".git".toList <:+ toAsciiLowercase text
  slash : ¬['/'] <:+ toAsciiLowercase text

/-- Without its scheme, its user and its endings, it starts and ends with none of them. -/
def Settled (repo : List Char) : Prop := ∃ body, Body repo body ∧ Clean body

theorem stripScheme_cases (text : List Char) :
    (∃ scheme ∈ schemes, text = scheme ++ stripScheme text) ∨
      stripScheme text = text ∧ ∀ scheme ∈ schemes, ¬scheme <+: text := by
  by_cases known : ∃ scheme ∈ schemes, scheme <+: text
  · obtain ⟨scheme, listed, rest, rfl⟩ := known
    exact .inl ⟨scheme, listed, by rw [stripScheme_append listed]⟩
  · have none : ∀ scheme ∈ schemes, ¬scheme <+: text :=
      fun scheme listed starts => known ⟨scheme, listed, starts⟩
    exact .inr ⟨stripScheme_eq_self none, none⟩

theorem stripUser_cases (text : List Char) :
    (∃ rest, text = "git@".toList ++ rest ∧ stripUser text = replaceColon rest) ∨
      stripUser text = text ∧ ¬"git@".toList <+: text := by
  by_cases known : "git@".toList <+: text
  · obtain ⟨rest, rfl⟩ := known
    exact .inl ⟨rest, rfl, stripUser_append rest⟩
  · exact .inr ⟨stripUser_eq_self known, known⟩

theorem git_ne_nil : ".git".toList ≠ [] := by decide

theorem body_kept (repo : List Char) : Body repo (kept repo) := by
  obtain ⟨⟨suffixes, inner⟩, -⟩ := trimEndMatches_spec git_ne_nil
    (stripUser (stripScheme (trim repo)))
  obtain ⟨⟨slashes, outer⟩, -⟩ := trimEndMatches_spec (List.cons_ne_nil '/' [])
    (trimEndMatches ".git".toList (stripUser (stripScheme (trim repo))))
  refine ⟨stripScheme (trim repo), stripUser (stripScheme (trim repo)), slashes, suffixes,
    stripScheme_cases _, stripUser_cases _, ?_⟩
  rw [kept, trimEnds, ← outer, ← inner]

theorem not_suffix_of_small {pattern text : List Char} (own : toAsciiLowercase pattern = pattern)
    (clean : ¬pattern <:+ toAsciiLowercase text) : ¬pattern <:+ text := by
  intro ends
  rw [← own] at clean
  exact clean (ends.map _)

/-- A clean body is what is kept. -/
theorem kept_of_body {repo body : List Char} (parts : Body repo body) (clean : Clean body) :
    kept repo = body := by
  obtain ⟨address, path, slashes, suffixes, scheme, user, whole⟩ := parts
  have address_eq : stripScheme (trim repo) = address := by
    rcases scheme with ⟨scheme, listed, start⟩ | ⟨rfl, none⟩
    · rw [start, stripScheme_append listed]
    · exact stripScheme_eq_self none
  have path_eq : stripUser address = path := by
    rcases user with ⟨rest, rfl, rfl⟩ | ⟨rfl, none⟩
    · exact stripUser_append rest
    · exact stripUser_eq_self none
  have slash := not_suffix_of_small (by decide) clean.slash
  have suffix : ¬".git".toList <:+ body ++ (List.replicate slashes ['/']).flatten := by
    cases slashes with
    | zero => simpa using not_suffix_of_small (by decide) clean.suffix
    | succ slashes =>
        rw [List.replicate_succ', List.flatten_append, List.flatten_singleton, ← List.append_assoc]
        exact Spelling.not_suffix_of_slash git_ne_nil (by decide) _
  rw [kept, address_eq, path_eq, whole, trimEnds, trimEndMatches_replicate git_ne_nil suffix,
    trimEndMatches_replicate (List.cons_ne_nil _ _) slash]

theorem trim_sublist (text : List Char) : (trim text).Sublist text := by
  have inner := (List.dropWhile_sublist (l := (text.dropWhile isWhitespace).reverse)
    isWhitespace).reverse
  rw [List.reverse_reverse] at inner
  exact inner.trans (List.dropWhile_sublist _)

theorem length_replaceColon (text : List Char) : (replaceColon text).length = text.length := by
  induction text with
  | nil => rfl
  | cons char text ih =>
      rw [replaceColon]
      split
      · rfl
      · rw [List.length_cons, ih, List.length_cons]

theorem length_pos_of_schemes : ∀ scheme ∈ schemes, 0 < scheme.length := by decide

theorem length_stripUser_le (text : List Char) : (stripUser text).length ≤ text.length := by
  rcases stripUser_cases text with ⟨rest, rfl, path⟩ | ⟨same, -⟩
  · rw [path, length_replaceColon, List.length_append]
    exact Nat.le_add_left _ _
  · rw [same]

/-- A text is kept whole exactly if nothing is taken off it. -/
theorem kept_eq_self_iff : kept text = text ↔
    trim text = text ∧ (∀ scheme ∈ schemes, ¬scheme <+: text) ∧ ¬"git@".toList <+: text ∧
      ¬".git".toList <:+ text ∧ ¬['/'] <:+ text := by
  constructor
  · intro whole
    have inner := (trim_sublist text).length_le
    have outer := (Spelling.trimEnds_prefix (stripUser (stripScheme (trim text)))).length_le
    rw [← kept, whole] at outer
    -- no stage takes anything off, since the whole length is left
    rcases stripScheme_cases (trim text) with ⟨scheme, listed, start⟩ | ⟨scheme_eq, scheme⟩
    · have some := length_pos_of_schemes scheme listed
      have rest := length_stripUser_le (stripScheme (trim text))
      have length := congrArg List.length start
      rw [List.length_append] at length
      omega
    · rcases stripUser_cases (trim text) with ⟨rest, start, path⟩ | ⟨user_eq, user⟩
      · have length := congrArg List.length start
        have some : 0 < "git@".toList.length := by decide
        rw [scheme_eq, path, length_replaceColon] at outer
        rw [List.length_append] at length
        omega
      · rw [scheme_eq, user_eq] at outer
        have spaces := (trim_sublist text).eq_of_length_le outer
        rw [kept, scheme_eq, user_eq, spaces, trimEnds] at whole
        rw [spaces] at scheme user
        obtain ⟨⟨suffixes, cut⟩, suffix⟩ := trimEndMatches_spec git_ne_nil text
        obtain ⟨⟨slashes, slashed⟩, slash⟩ := trimEndMatches_spec (List.cons_ne_nil '/' [])
          (trimEndMatches ".git".toList text)
        rw [whole] at slash slashed
        have bare : trimEndMatches ".git".toList text = text :=
          (List.IsPrefix.eq_of_length_le ⟨_, cut.symm⟩
            (by rw [slashed, List.length_append]; exact Nat.le_add_right _ _))
        rw [bare] at suffix
        exact ⟨spaces, scheme, user, suffix, slash⟩
  · rintro ⟨spaces, scheme, user, suffix, slash⟩
    rw [kept, spaces, stripScheme_eq_self scheme, stripUser_eq_self user, trimEnds,
      trimEndMatches_eq_self git_ne_nil suffix, trimEndMatches_eq_self (List.cons_ne_nil _ _) slash]

theorem mem_of_mem_replaceColon {char : Char} (member : char ∈ replaceColon text) :
    char = '/' ∨ char ∈ text := by
  induction text with
  | nil => cases member
  | cons first text ih =>
      rw [replaceColon] at member
      split at member
      · exact (List.mem_cons.mp member).imp_right (List.mem_cons_of_mem _)
      · rcases List.mem_cons.mp member with rfl | inside
        · exact .inr List.mem_cons_self
        · exact (ih inside).imp_right (List.mem_cons_of_mem _)

theorem mem_of_mem_kept {char : Char} (member : char ∈ kept text) : char = '/' ∨ char ∈ text := by
  have inPath := mem_of_mem_trimEndMatches (mem_of_mem_trimEndMatches member)
  have inAddress : char = '/' ∨ char ∈ stripScheme (trim text) := by
    rcases stripUser_cases (stripScheme (trim text)) with ⟨rest, start, path⟩ | ⟨same, -⟩
    · rw [path] at inPath
      refine (mem_of_mem_replaceColon inPath).imp_right fun inside => ?_
      rw [start]
      exact List.mem_append_right _ inside
    · rw [same] at inPath
      exact .inr inPath
  refine inAddress.imp_right fun inside => mem_of_mem_trim ?_
  rcases stripScheme_cases (trim text) with ⟨scheme, -, start⟩ | ⟨same, -⟩
  · rw [start]
    exact List.mem_append_right _ inside
  · rwa [same] at inside

/-- What is kept of a text in lower case is in lower case. -/
theorem lower_kept_lower (lowercases : Lowercases toLowercase) (text : List Char) :
    lower toLowercase (kept (lower toLowercase text)) = kept (lower toLowercase text) := by
  refine lowercases.settled fun char member => ?_
  rcases mem_of_mem_kept member with rfl | inside
  · exact ⟨['/'], (slash_mem_lower lowercases).mpr List.mem_cons_self⟩
  · exact ⟨text, inside⟩

/-- The lower case of a text is kept whole exactly if the text is clean. -/
theorem kept_lower_iff (lowercases : Lowercases toLowercase) (text : List Char) :
    kept (lower toLowercase text) = lower toLowercase text ↔ Clean text := by
  have small : ∀ pattern ∈ schemes ++ ["git@".toList, ".git".toList, ['/']],
      pattern.all (fun char => decide (char.toNat < 128) && char != 'k') = true := by decide
  have ascii : ∀ pattern ∈ schemes ++ ["git@".toList, ".git".toList, ['/']],
      ∀ char ∈ pattern, char.toNat < 128 ∧ char ≠ 'k' := by
    intro pattern listed char member
    simpa using List.all_eq_true.mp (small pattern listed) char member
  have ends : ∀ scheme ∈ schemes, scheme.getLast? ≠ some 'i' := by decide
  have scheme : (∀ scheme ∈ schemes, ¬scheme <+: lower toLowercase text) ↔
      ∀ scheme ∈ schemes, ¬scheme <+: toAsciiLowercase text :=
    forall₂_congr fun scheme listed => not_congr
      (lowercases.prefix_iff text (ascii scheme (List.mem_append_left _ listed))
        (ends scheme listed))
  have user := lowercases.prefix_iff text (ascii "git@".toList (by simp)) (by decide)
  have suffix := lowercases.suffix_iff text (ascii ".git".toList (by simp))
  have slash := lowercases.suffix_iff text (ascii ['/'] (by simp))
  rw [kept_eq_self_iff, lowercases.trim_iff, scheme, user, suffix, slash]
  exact ⟨fun both => ⟨both.1, both.2.1, both.2.2.1, both.2.2.2.1, both.2.2.2.2⟩,
    fun clean => ⟨clean.spaces, clean.scheme, clean.user, clean.suffix, clean.slash⟩⟩

/-- A normal form is its own normal form exactly if what it is the lower case of is clean. -/
theorem normal_form_twice_iff (lowercases : Lowercases toLowercase) (repo : String) :
    normalizeRepoUrl toLowercase (normalizeRepoUrl toLowercase repo) =
      normalizeRepoUrl toLowercase repo ↔ Settled repo.toList := by
  rw [← String.toList_inj, toList_normalizeRepoUrl, toList_normalizeRepoUrl,
    lower_kept_lower lowercases, kept_lower_iff lowercases]
  constructor
  · exact fun clean => ⟨_, body_kept _, clean⟩
  · rintro ⟨body, parts, clean⟩
    rwa [kept_of_body parts clean]

/-- Of every spelling and every text: when the spellings of a remote have one normal form that no
other remote's have, when the folder is named after the repo, and when a normal form is its own. -/
theorem spellings_exact (lowercases : Lowercases toLowercase) :
    (∀ spelling : Spelling,
      (∀ other : Spelling, other.Plain →
        (normalizeRepoUrl toLowercase spelling.url = normalizeRepoUrl toLowercase other.url ↔
          spelling.remote.Same toLowercase other.remote)) ↔ spelling.Plain) ∧
    (∀ spelling : Spelling,
      (repoNameFromUrl spelling.url ≠ "" ∧
        lower toLowercase (repoNameFromUrl spelling.url).toList =
          lower toLowercase spelling.remote.name) ↔ spelling.Named) ∧
    ∀ repo : String, normalizeRepoUrl toLowercase (normalizeRepoUrl toLowercase repo) =
      normalizeRepoUrl toLowercase repo ↔ Settled repo.toList :=
  ⟨fun spelling => spelling.normal_form_iff lowercases,
    fun spelling => spelling.repoName_iff lowercases, normal_form_twice_iff lowercases⟩

/-- A repo of a host. -/
def api : Remote where
  host := "example.com".toList
  path := ["Org".toList]
  name := "api".toList
  host_part := by decide
  path_parts := by decide
  name_part := by decide

/-- The way `git` prints it. -/
def printed : Spelling where
  remote := api
  form := .scp
  scheme := []
  user := "git@".toList
  suffix := ".git".toList
  slash := false
  scheme_case := by decide
  user_case := by decide
  suffix_case := by decide

/-- The way a browser shows it, with both endings. -/
def shown : Spelling where
  remote := api
  form := .https
  scheme := "https://".toList
  user := []
  suffix := ".git".toList
  slash := true
  scheme_case := by decide
  user_case := by decide
  suffix_case := by decide

def asciiLowercase (text : String) : String := String.ofList (toAsciiLowercase text.toList)

theorem plain_printed : printed.Plain where
  scheme := rfl
  user := rfl
  colon := (by decide : ':' ∉ "example.com".toList)
  ends := .inr ⟨rfl, rfl⟩

theorem spellings_exact_printed :
    normalizeRepoUrl asciiLowercase printed.url =
        normalizeRepoUrl asciiLowercase (Spelling.usual api).url ∧
      repoNameFromUrl printed.url ≠ "" ∧
      normalizeRepoUrl asciiLowercase (normalizeRepoUrl asciiLowercase printed.url) =
        normalizeRepoUrl asciiLowercase printed.url := by
  obtain ⟨forms, names, twice⟩ := spellings_exact lowercases_ascii
  refine ⟨?_, ?_, ?_⟩
  · exact ((forms printed).mpr plain_printed _ (Spelling.plain_usual api)).mpr ⟨rfl, rfl, rfl⟩
  · exact ((names printed).mpr ⟨rfl, .inr rfl⟩).1
  · refine (twice printed.url).mpr ⟨"example.com/Org/api".toList, ?_, ?_⟩
    · refine ⟨"git@example.com:Org/api.git".toList, "example.com/Org/api.git".toList, 0, 1,
        .inr (by decide), .inl ⟨"example.com:Org/api.git".toList, ?_⟩, ?_⟩ <;>
        decide
    · constructor <;> decide

/-- With both endings, the suffix and the slash, a spelling has another normal form, which is not
its own, and no name. -/
theorem shown_differs :
    shown.url = "https://example.com/Org/api.git/" ∧
      (Spelling.usual api).url = "https://example.com/Org/api" ∧
      normalizeRepoUrl asciiLowercase shown.url ≠
        normalizeRepoUrl asciiLowercase (Spelling.usual api).url ∧
      repoNameFromUrl shown.url = "" ∧
      normalizeRepoUrl asciiLowercase (normalizeRepoUrl asciiLowercase shown.url) ≠
        normalizeRepoUrl asciiLowercase shown.url := by
  decide

end RepoUrl
end Fghj
