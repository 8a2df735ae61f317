import Fghj.Globs
import Fghj.Library.Listing
import Fghj.Library.Paths

/-!
# Docker's reading of a .dockerignore

Lines are trimmed, those that start with `#` are comments, and a `!` makes an exception. A pattern
is cleaned of empty, `.` and `..` segments; its segments are matched as Go's `filepath.Match`
matches names, with character classes and escapes, and `**` is any number of them. The last pattern
that matches a file or a directory above it decides.
-/

namespace Fghj
namespace Moby

/-- What stands in a segment for a run of characters or for one. -/
inductive Token where
  | star
  | any
  | itself (char : Char)
  | oneOf (negated : Bool) (ranges : List (Char × Char))
  deriving DecidableEq

def Token.Fits : Token → Char → Prop
  | .star, _ => False
  | .any, _ => True
  | .itself char, symbol => char = symbol
  | .oneOf negated ranges, symbol =>
      (ranges.any fun range => range.1 ≤ symbol && symbol ≤ range.2) ≠ negated

/-- A segment of a pattern: any number of segments of a path, or one. -/
inductive Segment where
  | deep
  | one (tokens : List Token)
  deriving DecidableEq

/-- Whether a segment matches a name. -/
def Segment.Fits : Segment → List Char → Prop
  | .deep, _ => False
  | .one tokens, name => Wildcards.Covers (· = .star) Token.Fits tokens name

structure Pattern where
  exclusion : Bool
  segments : List Segment
  deriving DecidableEq

/-! ## Reading a segment -/

/-- A character of a class, maybe escaped. -/
def readChar : List Char → Option (Char × List Char)
  | [] => none
  | '\\' :: [] => none
  | '\\' :: char :: rest => some (char, rest)
  | char :: rest => if char = '-' ∨ char = ']' then none else some (char, rest)

/-- The ranges of a class up to the bracket that ends it; there is at least one. -/
def readRanges : Nat → List (Char × Char) → List Char →
    Option (List (Char × Char) × List Char)
  | 0, _, _ => none
  | fuel + 1, ranges, text =>
      if text.head? = some ']' ∧ ranges ≠ [] then some (ranges, text.tail)
      else
        (readChar text).bind fun (low, rest) =>
          if rest.head? = some '-' then
            (readChar rest.tail).bind fun (high, rest) =>
              readRanges fuel (ranges ++ [(low, high)]) rest
          else readRanges fuel (ranges ++ [(low, low)]) rest

/-- The tokens of a segment, if it is well formed. -/
def readTokens : Nat → List Char → Option (List Token)
  | _, [] => some []
  | 0, _ => none
  | fuel + 1, char :: rest =>
      if char = '*' then (readTokens fuel rest).map (.star :: ·)
      else if char = '?' then (readTokens fuel rest).map (.any :: ·)
      else if char = '\\' then
        rest.head?.bind fun escaped => (readTokens fuel rest.tail).map (.itself escaped :: ·)
      else if char = '[' then
        let negated := rest.head? == some '^'
        (readRanges rest.length [] (if negated then rest.tail else rest)).bind
          fun (ranges, after) => (readTokens fuel after).map (.oneOf negated ranges :: ·)
      else (readTokens fuel rest).map (.itself char :: ·)

/-- Whether a segment holds `**`. -/
def glued (segment : List Char) : Bool := segment.tails.any fun rest => ['*', '*'].isPrefixOf rest

/-- What `**` means beside anything else in a segment is left open. -/
def readSegment (segment : List Char) : Option Segment :=
  if segment = ['*', '*'] then some .deep
  else if glued segment then none
  else (readTokens segment.length segment).map .one

/-! ## Reading the file -/

/-- The segments kept after a `..`. -/
def goUp (rooted : Bool) : List (List Char) → List (List Char)
  | [] => if rooted then [] else [['.', '.']]
  | last :: before => if last = ['.', '.'] then ['.', '.'] :: last :: before else before

/-- One segment more of a path that is cleaned; the segments kept so far stand last first. -/
def cleanStep (rooted : Bool) (kept : List (List Char)) (segment : List Char) : List (List Char) :=
  if segment = [] ∨ segment = ['.'] then kept
  else if segment = ['.', '.'] then goUp rooted kept
  else segment :: kept

/-- The segments of a pattern after it is cleaned and, where it starts at the root, taken from
there. -/
def clean (body : List Char) : List (List Char) :=
  ((body.splitOn '/').foldl (cleanStep (body.head? == some '/')) []).reverse

/-- Whether a line is an exception, and the pattern it tells. -/
def body (line : List Char) : Bool × List Char :=
  match Text.stripPrefix ['!'] (Text.trim line) with
  | some rest => (true, Text.trim rest)
  | none => (false, Text.trim line)

/-- The lines that tell a pattern. -/
def patternLines (text : List Char) : List (List Char) :=
  (Text.lines text).filter fun line => line.head? != some '#' && !(Text.trim line).isEmpty

/-- The pattern of such a line, if it is well formed; a pattern about nothing but the directory
itself is ignored. -/
def readLine (line : List Char) : Option (Option Pattern) :=
  if (body line).2 = [] then none
  else if clean (body line).2 = [] then some none
  else ((clean (body line).2).mapM readSegment).map fun segments => some ⟨(body line).1, segments⟩

/-- The patterns of a file, if all are accepted. -/
def read (text : List Char) : Option (List Pattern) :=
  ((patternLines text).mapM readLine).map List.reduceOption

/-! ## The verdict on a file -/

def Pattern.Matches (pattern : Pattern) (path : List (List Char)) : Prop :=
  Wildcards.Covers (· = .deep) Segment.Fits pattern.segments path

/-- A pattern matches a path or a directory above it. -/
def Pattern.Hits (pattern : Pattern) (path : List (List Char)) : Prop :=
  ∃ above, above ≠ [] ∧ above <+: path ∧ pattern.Matches above

/-- The last pattern that hits the path is none of the exceptions. -/
def Excluded (patterns : List Pattern) (path : List (List Char)) : Prop :=
  ∃ before pattern after, patterns = before ++ pattern :: after ∧ pattern.exclusion = false ∧
    pattern.Hits path ∧ ∀ later ∈ after, ¬later.Hits path

/-- What a line tells: nothing if it is a comment or blank. -/
def told (line : List Char) : Option Pattern :=
  if line.head? != some '#' && !(Text.trim line).isEmpty then (readLine line).join else none

/-- A line hits the path, or a directory above it, as Docker reads it. -/
def DockerHits (parts : List (List Char)) (line : List Char) : Prop :=
  ∃ pattern, told line = some pattern ∧ pattern.Hits parts

/-- The parts of a path to a file in the context. -/
structure FilePath (parts : List (List Char)) : Prop where
  some : parts ≠ []
  named : ∀ part ∈ parts, part ≠ [] ∧ part ≠ ['.'] ∧ part ≠ ['.', '.']
  single : ∀ part ∈ parts, '/' ∉ part

/-! ## Lines that are read alike -/

open Dockerignore (Takes TakesShort Spans)
open Paths (path splitOn_path)

/-- A segment that is about something. -/
def solid (segment : List Char) : Bool := !segment.isEmpty && segment != ['.']

/-- The segments that are about something, as they are written. -/
def written (body : List Char) : List (List Char) := (body.splitOn '/').filter solid

/-- A line in which nothing is written that only one of the readers knows: a class, an escape, a
`..` that takes a segment away or leads out of the root, or a `#` behind blanks. -/
structure Shared (line : List Char) : Prop where
  noComment : (Text.trim line).head? ≠ some '#'
  noClass : '[' ∉ (body line).2
  noEscape : '\\' ∉ (body line).2
  stays : ∀ before after, written (body line).2 = before ++ ['.', '.'] :: after →
    (body line).2.head? ≠ some '/' ∧ ∀ segment ∈ before, segment = ['.', '.']

theorem written_dropWhile (body : List Char) :
    written (body.dropWhile (· == '/')) = written body := by
  induction body with
  | nil => rfl
  | cons char body ih =>
      by_cases slash : char = '/'
      · subst slash
        rw [List.dropWhile_cons_of_pos rfl, ih, written, written,
          List.splitOn_cons_eq_if_modifyHead, if_pos (beq_self_eq_true '/'),
          List.filter_cons_of_neg (by decide)]
      · rw [List.dropWhile_cons_of_neg (by simpa using slash)]

variable {line : List Char}

theorem parseLine_eq (nonempty : Text.trim line ≠ [])
    (noComment : (Text.trim line).head? ≠ some '#') :
    Dockerignore.parseLine line =
      if (written (body line).2).isEmpty then none
      else some ⟨(body line).1, written (body line).2⟩ := by
  have counts : ((Text.trim line).isEmpty || (Text.trim line).head? == some '#') = false := by
    simp [nonempty, noComment]
  rw [Dockerignore.parseLine]
  simp only [counts, Bool.false_eq_true, if_false]
  rw [← written_dropWhile (body line).2]
  unfold body written solid
  cases Text.stripPrefix ['!'] (Text.trim line) <;> rfl

theorem foldl_cleanStep_filter (rooted : Bool) (segments kept : List (List Char)) :
    segments.foldl (cleanStep rooted) kept =
      (segments.filter solid).foldl (cleanStep rooted) kept := by
  induction segments generalizing kept with
  | nil => rfl
  | cons segment segments ih =>
      rw [List.foldl_cons, ih]
      by_cases empty : segment = [] ∨ segment = ['.']
      · rw [cleanStep, if_pos empty, List.filter_cons_of_neg]
        rcases empty with rfl | rfl <;> decide
      · rw [List.filter_cons_of_pos, List.foldl_cons]
        simpa [solid] using empty

theorem clean_eq {body : List Char}
    (stays : ∀ before after, written body = before ++ ['.', '.'] :: after →
      body.head? ≠ some '/' ∧ ∀ segment ∈ before, segment = ['.', '.']) :
    clean body = written body := by
  rw [clean, foldl_cleanStep_filter]
  change ((written body).foldl _ []).reverse = written body
  have about : ∀ segment ∈ written body, ¬(segment = [] ∨ segment = ['.']) := by
    intro segment member
    simpa [solid] using (List.mem_filter.mp member).2
  generalize written body = segments at stays about
  -- every segment is kept, so those before a `..` are all `..`
  induction segments using List.reverseRecOn with
  | nil => rfl
  | append_singleton segments segment ih =>
      have before := ih
        (fun front back same => by
          exact stays front (back ++ [segment]) (by rw [same]; simp))
        fun other member => about other (List.mem_append_left _ member)
      have kept := congrArg List.reverse before
      rw [List.reverse_reverse] at kept
      rw [List.foldl_append, List.foldl_cons, List.foldl_nil, kept, cleanStep,
        if_neg (about segment (by simp))]
      by_cases up : segment = ['.', '.']
      · obtain ⟨relative, above⟩ := stays segments [] (by rw [up])
        rw [if_pos up]
        cases reversed : segments.reverse with
        | nil =>
            obtain rfl := List.reverse_eq_nil_iff.mp reversed
            simp [goUp, relative, up]
        | cons last front =>
            have member : last ∈ segments := by
              rw [← List.mem_reverse, reversed]
              exact List.mem_cons_self
            rw [goUp, if_pos (above last member), ← reversed, up]
            simp
      · rw [if_neg up]
        simp

/-- The token of a character that is no class and no escape. -/
def token (char : Char) : Token :=
  if char = '*' then .star else if char = '?' then .any else .itself char

def segment (text : List Char) : Segment :=
  if text = ['*', '*'] then .deep else .one (text.map token)

theorem readTokens_plain {text : List Char} (noClass : '[' ∉ text) (noEscape : '\\' ∉ text)
    {fuel : Nat} (enough : text.length ≤ fuel) : readTokens fuel text = some (text.map token) := by
  induction text generalizing fuel with
  | nil => cases fuel <;> rfl
  | cons char text ih =>
      cases fuel with
      | zero => exact absurd enough (by simp)
      | succ fuel =>
          rw [List.mem_cons, not_or] at noClass noEscape
          have rest := ih noClass.2 noEscape.2 (Nat.le_of_succ_le_succ enough)
          rw [readTokens, rest, List.map_cons]
          by_cases star : char = '*'
          · simp [star, token]
          · by_cases any : char = '?'
            · simp [any, token]
            · have noBracket : char ≠ '[' := fun same => noClass.1 same.symm
              have noBackslash : char ≠ '\\' := fun same => noEscape.1 same.symm
              simp [star, any, noBracket, noBackslash, token]

theorem readSegment_plain {text : List Char} (noClass : '[' ∉ text) (noEscape : '\\' ∉ text)
    {result : Segment} (accepted : readSegment text = some result) : result = segment text := by
  rw [readSegment, readTokens_plain noClass noEscape le_rfl] at accepted
  rw [segment]
  by_cases deep : text = ['*', '*']
  · rw [if_pos deep] at accepted ⊢
    exact (Option.some.inj accepted).symm
  · rw [if_neg deep] at accepted ⊢
    split at accepted
    · cases accepted
    · exact (Option.some.inj accepted).symm

/-- How Docker reads a pattern that both read alike. -/
def reading (pattern : Dockerignore.Pattern) : Pattern :=
  ⟨pattern.exclusion, pattern.segments.map segment⟩

theorem not_mem_of_mem_written {char : Char} {body segment : List Char} (absent : char ∉ body)
    (member : segment ∈ written body) : char ∉ segment :=
  fun inside => absent (Text.mem_of_mem_splitOn (List.mem_filter.mp member).1 inside)

theorem readLine_eq (nonempty : Text.trim line ≠ []) (shared : Shared line)
    {result : Option Pattern} (accepted : readLine line = some result) :
    result = (Dockerignore.parseLine line).map reading := by
  rw [parseLine_eq nonempty shared.noComment]
  rw [readLine, clean_eq shared.stays] at accepted
  split at accepted
  · cases accepted
  · by_cases empty : written (body line).2 = []
    · rw [if_pos empty] at accepted
      cases accepted
      simp [empty]
    · rw [if_neg empty] at accepted
      obtain ⟨segments, each, same⟩ := Option.map_eq_some_iff.mp accepted
      rw [← same, if_neg (by simpa using empty), Option.map_some, reading,
        Listing.mapM_eq_map segment (fun text member result found =>
          readSegment_plain (not_mem_of_mem_written shared.noClass member)
            (not_mem_of_mem_written shared.noEscape member) found) each]

theorem head?_trim_hash (rest : List Char) : (Text.trim ('#' :: rest)).head? = some '#' := by
  have solid : Text.isWhitespace '#' = false := by decide
  rw [Text.trim, List.dropWhile_cons_of_neg (by simp [solid]), List.reverse_cons,
    List.dropWhile_append]
  split
  · rw [List.dropWhile_cons_of_neg (by simp [solid])]
    rfl
  · simp

theorem parseLine_of_ignored (ignored : Text.trim line = [] ∨ (Text.trim line).head? = some '#') :
    Dockerignore.parseLine line = none := by
  have ignored : ((Text.trim line).isEmpty || (Text.trim line).head? == some '#') = true := by
    simpa using ignored
  simp only [Dockerignore.parseLine, ignored, if_true]

/-- A line that tells Docker nothing tells the other reader nothing. -/
theorem parseLine_of_skipped (skipped : ¬(line.head? != some '#' && !(Text.trim line).isEmpty)) :
    Dockerignore.parseLine line = none := by
  by_cases comment : line.head? = some '#'
  · obtain ⟨rest, rfl⟩ := List.head?_eq_some_iff.mp comment
    exact parseLine_of_ignored (.inr (head?_trim_hash rest))
  · exact parseLine_of_ignored (.inl (by simpa [comment] using skipped))

/-- Whether a line is an exception does not depend on the reader. -/
theorem parseLine_exclusion {pattern : Dockerignore.Pattern}
    (found : Dockerignore.parseLine line = some pattern) : pattern.exclusion = (body line).1 := by
  by_cases ignored : Text.trim line = [] ∨ (Text.trim line).head? = some '#'
  · rw [parseLine_of_ignored ignored] at found
    cases found
  · rw [not_or] at ignored
    rw [parseLine_eq ignored.1 ignored.2] at found
    split at found
    · cases found
    · cases found
      rfl

theorem told_exclusion {pattern : Pattern} (found : told line = some pattern) :
    pattern.exclusion = (body line).1 := by
  rw [told] at found
  split at found
  · rw [Option.join_eq_some_iff, readLine] at found
    split at found
    · cases found
    · split at found
      · cases found
      · obtain ⟨segments, -, same⟩ := Option.map_eq_some_iff.mp found
        rw [← Option.some.inj same]
  · cases found

theorem told_of_counts (counts : (line.head? != some '#' && !(Text.trim line).isEmpty) = true) :
    told line = (readLine line).join := if_pos counts

variable {patterns : List Pattern}

/-- The patterns of an accepted file are what its lines tell. -/
theorem read_eq {text : List Char} (accepted : read text = some patterns) :
    patterns = (Text.lines text).filterMap told := by
  obtain ⟨results, each, same⟩ := Option.map_eq_some_iff.mp accepted
  have all := Listing.mapM_eq_map (fun line => told line)
    (fun line member result found => by
      rw [told_of_counts (List.mem_filter.mp member).2, found]
      rfl) each
  delta List.reduceOption at same
  rw [← same, all, patternLines, List.filterMap_map, List.filterMap_filter]
  refine List.filterMap_congr fun line _ => ?_
  split
  · rfl
  · rename_i skipped
    exact (if_neg skipped).symm

/-- A line of an accepted file that tells something is well formed. -/
theorem readLine_of_accepted {text line : List Char} (accepted : read text = some patterns)
    (member : line ∈ Text.lines text)
    (counts : (line.head? != some '#' && !(Text.trim line).isEmpty) = true) :
    ∃ result, readLine line = some result := by
  obtain ⟨results, each, -⟩ := Option.map_eq_some_iff.mp accepted
  exact Listing.exists_of_mapM each (List.mem_filter.mpr ⟨member, counts⟩)

/-- A shared line of an accepted file tells both the same. -/
theorem told_eq {text line : List Char} (accepted : read text = some patterns)
    (member : line ∈ Text.lines text) (shared : Shared line) :
    told line = (Dockerignore.parseLine line).map reading := by
  by_cases counts : (line.head? != some '#' && !(Text.trim line).isEmpty) = true
  · obtain ⟨result, found⟩ := readLine_of_accepted accepted member counts
    have nonempty : Text.trim line ≠ [] := by simpa using (Bool.and_eq_true_iff.mp counts).2
    rw [told_of_counts counts, found, ← readLine_eq nonempty shared found]
    rfl
  · rw [parseLine_of_skipped counts]
    exact if_neg counts

/-! ## Patterns that are matched alike -/

theorem covers_token_iff {text name : List Char} :
    Wildcards.Covers (· = .star) Token.Fits (text.map token) name ↔ Takes text name := by
  constructor
  · intro covers
    generalize whole : text.map token = tokens at covers
    induction covers generalizing text with
    | nil =>
        obtain rfl := List.map_eq_nil_iff.mp whole
        exact .nil
    | @run current _ _ taken isWild _ ih =>
        obtain ⟨char, rest, rfl, same, below⟩ := List.map_eq_cons_iff.mp whole
        have star : char = '*' := by
          rw [isWild, token] at same
          by_contra other
          rw [if_neg other] at same
          split at same <;> cases same
        subst star
        exact .star taken (ih below)
    | @one current symbol _ _ single fit _ ih =>
        obtain ⟨char, rest, rfl, rfl, below⟩ := List.map_eq_cons_iff.mp whole
        have noStar : char ≠ '*' := by
          rintro rfl
          exact single rfl
        by_cases question : char = '?'
        · subst question
          exact .question symbol (ih below)
        · rw [token, if_neg noStar, if_neg question] at fit
          obtain rfl : char = symbol := fit
          exact .itself noStar question (ih below)
  · intro takes
    induction takes with
    | nil => exact .nil
    | star run _ ih => exact .run run rfl ih
    | question char _ ih => exact .one (by decide) trivial ih
    | @itself pattern name char noStar noQuestion _ ih =>
        have plain : token char = .itself char := by simp [token, noStar, noQuestion]
        refine .one (by rw [plain]; exact Token.noConfusion) ?_ ih
        rw [plain]
        exact rfl

theorem covers_segment_iff {segments parts : List (List Char)} :
    Wildcards.Covers (· = .deep) Segment.Fits (segments.map segment) parts ↔
      Spans Takes segments parts := by
  constructor
  · intro covers
    generalize whole : segments.map segment = read at covers
    induction covers generalizing segments with
    | nil =>
        obtain rfl := List.map_eq_nil_iff.mp whole
        exact .nil
    | @run current _ _ taken isWild _ ih =>
        obtain ⟨text, rest, rfl, same, below⟩ := List.map_eq_cons_iff.mp whole
        have deep : text = ['*', '*'] := by
          rw [isWild, segment] at same
          by_contra other
          rw [if_neg other] at same
          cases same
        subst deep
        exact .deep taken (ih below)
    | @one current part _ _ single fit _ ih =>
        obtain ⟨text, rest, rfl, rfl, below⟩ := List.map_eq_cons_iff.mp whole
        have one : text ≠ ['*', '*'] := by
          rintro rfl
          exact single rfl
        rw [segment, if_neg one] at fit
        exact .one one (covers_token_iff.mp fit) (ih below)
  · intro spans
    induction spans with
    | nil => exact .nil
    | deep run _ ih => exact .run run rfl ih
    | @one text part _ _ single hit _ ih =>
        have plain : segment text = .one (text.map token) := if_neg single
        refine .one (by rw [plain]; exact Segment.noConfusion) ?_ ih
        rw [plain]
        exact covers_token_iff.mpr hit

/-- A pattern is about a path if it matches it or the parts of it down to some directory. -/
theorem hits_path {parts : List (List Char)} (file : FilePath parts)
    (pattern : Dockerignore.Pattern) :
    pattern.hits (path parts) ↔ ∃ above, above ≠ [] ∧ above <+: parts ∧
      Dockerignore.matchesSegments pattern.segments above := by
  rw [Dockerignore.Pattern.hits_iff]
  simp only [Dockerignore.Pattern.matchesPath]
  constructor
  · rintro (here | ⟨directory, rest, same, hit⟩)
    · rw [splitOn_path file.some file.single] at here
      exact ⟨parts, file.some, List.prefix_refl _, here⟩
    · obtain ⟨above, below, nonempty, -, rfl, rfl⟩ :=
        (Paths.path_eq_append_iff file.some file.single).mp ⟨rest, same⟩
      rw [splitOn_path nonempty fun part member =>
        file.single part (List.mem_append_left _ member)] at hit
      exact ⟨above, nonempty, List.prefix_append _ _, hit⟩
  · rintro ⟨above, nonempty, ⟨below, rfl⟩, hit⟩
    have flat := splitOn_path nonempty fun part member =>
      file.single part (List.mem_append_left _ member)
    rcases below with - | ⟨next, below⟩
    · rw [List.append_nil]
      exact .inl (flat.symm ▸ hit)
    · exact .inr ⟨path above, path (next :: below),
        Paths.path_append nonempty (List.cons_ne_nil _ _), flat.symm ▸ hit⟩

/-- A line hits the path, or a directory above it, as fghj reads it: no class, no escape and no `..`
is known, an indented `#` begins a comment, and no star of it reaches a star of a name. -/
def CodeHits (parts : List (List Char)) (line : List Char) : Prop :=
  ∃ pattern, Dockerignore.parseLine line = some pattern ∧
    ∃ above, above ≠ [] ∧ above <+: parts ∧ Spans TakesShort pattern.segments above

/-- The line is none of the exceptions. -/
def Excludes (line : List Char) : Prop := (body line).1 = false

/-- The last line that either reading takes to be about the file is so in both, or the lines before
it, in the reading that passes it by, come to what it says. -/
def ReadAlike (lines : List (List Char)) (parts : List (List Char)) : Prop :=
  ∀ before line after, lines = before ++ line :: after →
    CodeHits parts line ∨ DockerHits parts line →
      (∀ later ∈ after, ¬CodeHits parts later ∧ ¬DockerHits parts later) →
        CodeHits parts line ∧ DockerHits parts line ∨
          ¬CodeHits parts line ∧
            (Listing.LastTells Excludes (CodeHits parts) before ↔ Excludes line) ∨
          ¬DockerHits parts line ∧
            (Listing.LastTells Excludes (DockerHits parts) before ↔ Excludes line)

theorem excludes_iff_lastTells {parts : List (List Char)} (file : FilePath parts)
    (text : List Char) : (Dockerignore.parse text).excludes (path parts) ↔
      Listing.LastTells Excludes (CodeHits parts) (Text.lines text) := by
  have same (line : List Char) (pattern : Dockerignore.Pattern)
      (found : Dockerignore.parseLine line = some pattern) :
      pattern.exclusion = false ↔ Excludes line := by
    rw [Excludes, ← parseLine_exclusion found]
  have hits (pattern : Dockerignore.Pattern) : pattern.hits (path parts) = true ↔
      ∃ above, above ≠ [] ∧ above <+: parts ∧ Spans TakesShort pattern.segments above := by
    simp only [hits_path file, Dockerignore.matchesSegments_iff]
  rw [Dockerignore.Ignore.excludes_iff, Dockerignore.parse]
  simp only [hits]
  exact Listing.lastTells_filterMap same

theorem excluded_iff_lastTells {text : List Char} (accepted : read text = some patterns)
    (parts : List (List Char)) :
    Excluded patterns parts ↔ Listing.LastTells Excludes (DockerHits parts) (Text.lines text) := by
  have same (line : List Char) (pattern : Pattern) (found : told line = some pattern) :
      pattern.exclusion = false ↔ Excludes line := by
    rw [Excludes, ← told_exclusion found]
  rw [read_eq accepted]
  exact Listing.lastTells_filterMap same

theorem hits_reading_iff (pattern : Dockerignore.Pattern) (parts : List (List Char)) :
    (reading pattern).Hits parts ↔
      ∃ above, above ≠ [] ∧ above <+: parts ∧ Spans Takes pattern.segments above :=
  exists_congr fun _ => and_congr_right fun _ => and_congr_right fun _ => covers_segment_iff

/-- What a shared line is about in the code is what it is about to Docker, but for the stars that
would have to reach a star of a name. -/
theorem hits_iff_hits {text line : List Char} (accepted : read text = some patterns)
    (member : line ∈ Text.lines text) (shared : Shared line) (parts : List (List Char)) :
    (CodeHits parts line ↔ DockerHits parts line) ↔
      ∀ pattern, Dockerignore.parseLine line = some pattern →
        ∀ above, above ≠ [] → above <+: parts → Spans Takes pattern.segments above →
          ∃ other, other ≠ [] ∧ other <+: parts ∧ Spans TakesShort pattern.segments other := by
  rw [DockerHits, told_eq accepted member shared, CodeHits]
  cases Dockerignore.parseLine line with
  | none => simp
  | some pattern =>
      simp only [Option.some_inj, exists_eq_left', Option.map_some, hits_reading_iff]
      constructor
      · rintro same _ rfl above nonempty within spans
        exact same.mpr ⟨above, nonempty, within, spans⟩
      · intro short
        constructor
        · rintro ⟨above, nonempty, within, spans⟩
          exact ⟨above, nonempty, within, Spans.takes spans⟩
        · rintro ⟨above, nonempty, within, spans⟩
          exact short pattern rfl above nonempty within spans

theorem matches_name {exclusion : Bool} {tokens : List Token} {name : List Char}
    (covers : Wildcards.Covers (· = .star) Token.Fits tokens name) :
    (Pattern.mk exclusion [.one tokens]).Matches [name] :=
  .one (fun wrong => by cases wrong) covers .nil

theorem filePath_single {name : List Char} (named : name ≠ [] ∧ name ≠ ['.'] ∧ name ≠ ['.', '.'])
    (flat : '/' ∉ name) : FilePath [name] :=
  ⟨List.cons_ne_nil _ _, List.forall_mem_singleton.mpr named, List.forall_mem_singleton.mpr flat⟩

/-- Docker excludes a file and the other reader does not. -/
def DockerAlone (text : List Char) (parts : List (List Char)) : Prop :=
  ∃ patterns, read text = some patterns ∧ FilePath parts ∧ Excluded patterns parts ∧
    (Dockerignore.parse text).excludes (path parts) = false

theorem dockerAlone_of_match {text name : List Char} {pattern : Pattern}
    (accepted : read text = some [pattern]) (plain : pattern.exclusion = false)
    (file : FilePath [name]) (hit : pattern.Matches [name])
    (kept : (Dockerignore.parse text).excludes (path [name]) = false) :
    DockerAlone text [name] := by
  refine ⟨[pattern], accepted, file, ⟨[], pattern, [], rfl, plain, ?_, by simp⟩, kept⟩
  exact ⟨[name], List.cons_ne_nil _ _, List.prefix_refl _, hit⟩

end Moby
end Fghj
