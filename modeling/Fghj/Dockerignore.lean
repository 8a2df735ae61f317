import Fghj.Library.Slices
import Fghj.Library.Text

/-!
# What a .dockerignore excludes

The patterns of a `.dockerignore` are tried in order, and only those that could flip the running
verdict. A pattern tells of a path what it tells of the path or of one of the directories above it.
-/

namespace Fghj
namespace Dockerignore

structure Pattern where
  exclusion : Bool
  segments : List (List Char)
  deriving DecidableEq

/-- The patterns of a file, in order. -/
structure Ignore where
  patterns : List Pattern
  deriving DecidableEq

/-! ## Reading the file -/

/-- The pattern a line tells, unless it is blank, a comment or about nothing. -/
def parseLine (line : List Char) : Option Pattern :=
  let line := Text.trim line
  if line.isEmpty || line.head? == some '#' then none
  else
    let (exclusion, body) :=
      match Text.stripPrefix ['!'] line with
      | some rest => (true, Text.trim rest)
      | none => (false, line)
    let body := body.dropWhile (· == '/')
    let segments := (body.splitOn '/').filter fun segment =>
      !segment.isEmpty && segment != ['.']
    if segments.isEmpty then none else some ⟨exclusion, segments⟩

def parse (text : List Char) : Ignore := ⟨(Text.lines text).filterMap parseLine⟩

/-- The patterns of the file in the context directory, none where it cannot be read. -/
def load (file : Option (List Char)) : Ignore := (file.map parse).getD ⟨[]⟩

def Ignore.hasExclusions (ignore : Ignore) : Bool := ignore.patterns.any (·.exclusion)

/-! ## Matching a name and a path -/

/-- Where the matcher of a name stands: in the pattern, in the name, and at its last star with what
that takes of the name so far. -/
structure Cursor where
  pi : Nat
  ni : Nat
  star : Option (Nat × Nat)

/-- One pass of the matcher over a name; there is none where it would slice past the end. -/
def matchPass (p n : List Char) (cursor : Cursor) : Option (Pass Cursor Bool) :=
  if cursor.ni < n.length then
    if p[cursor.pi]? = some '?' ∨ (cursor.pi < p.length ∧ p[cursor.pi]? = n[cursor.ni]?) then
      some (.again ⟨cursor.pi + 1, cursor.ni + 1, cursor.star⟩)
    else if p[cursor.pi]? = some '*' then
      some (.again ⟨cursor.pi + 1, cursor.ni, some (cursor.pi, cursor.ni)⟩)
    else
      match cursor.star with
      | some (sp, sn) => some (.again ⟨sp + 1, sn + 1, some (sp, sn + 1)⟩)
      | none => some (.done false)
  else if cursor.pi ≤ p.length then some (.done ((p.drop cursor.pi).all (· == '*')))
  else none

/-- The matcher runs for as many passes as it can need, and slices past no end. -/
def matchLoop (p n : List Char) : Option (Option Bool) :=
  Slices.loop (matchPass p n) ((n.length + 1) * (p.length + 1)) ⟨0, 0, none⟩

def matchesOne (p n : List Char) : Bool := ((matchLoop p n).getD none).getD false

def matchesSegments : List (List Char) → List (List Char) → Bool
  | [], path => path.isEmpty
  | head :: rest, path =>
      if head = ['*', '*'] then
        (List.range (path.length + 1)).any fun skip => matchesSegments rest (path.drop skip)
      else
        match path with
        | first :: tail => matchesOne head first && matchesSegments rest tail
        | [] => false

namespace Pattern

def matchesPath (pattern : Pattern) (path : List Char) : Bool :=
  matchesSegments pattern.segments (path.splitOn '/')

end Pattern

/-! ## The directories above a path -/

/-- How far the search for separators has come, and the directories it has tested. -/
structure Climb where
  cut : Nat
  tested : List (List Char)

/-- One pass of the search; there is none where a slice cuts through a character. -/
def ancestorPass (test : List Char → Bool) (path : List Char) (climb : Climb) :
    Option (Pass Climb (Bool × List (List Char))) :=
  (Slices.after path climb.cut).bind fun rest =>
    match Slices.find ['/'] rest with
    | none => some (.done (false, climb.tested))
    | some i =>
        let cut := climb.cut + i
        (Slices.upTo path cut).map fun ancestor =>
          if test ancestor then .done (true, climb.tested ++ [ancestor])
          else .again ⟨cut + 1, climb.tested ++ [ancestor]⟩

/-- Whether a directory above a path passes a test, and those that were tested. -/
def climb (test : List Char → Bool) (path : List Char) :
    Option (Option (Bool × List (List Char))) :=
  Slices.loop (ancestorPass test path) (path.length + 1) ⟨0, []⟩

namespace Pattern

def matchesAnyAncestor (pattern : Pattern) (path : List Char) : Bool :=
  (((climb pattern.matchesPath path).getD none).map Prod.fst).getD false

end Pattern

namespace Ignore

/-- A pattern is tried only where it could flip the verdict so far. -/
def judge (path : List Char) (excluded : Bool) (pattern : Pattern) : Bool :=
  if pattern.exclusion != excluded then excluded
  else if pattern.matchesPath path || pattern.matchesAnyAncestor path then !pattern.exclusion
  else excluded

def excludes (ignore : Ignore) (path : List Char) : Bool := ignore.patterns.foldl (judge path) false

end Ignore

example : (parse "secrets\n!secrets/public.pem\n".toList).excludes "secrets/a.pem".toList = true ∧
    (parse "secrets\n!secrets/public.pem\n".toList).excludes "secrets/public.pem".toList =
      false := by
  decide

/-! ## What the search for directories tests -/

/-- The directories above a path, from the top down. -/
def ancestors : List Char → List (List Char)
  | [] => []
  | char :: path =>
      if char = '/' then [] :: (ancestors path).map (char :: ·)
      else (ancestors path).map (char :: ·)

theorem mem_ancestors {path directory : List Char} :
    directory ∈ ancestors path ↔ ∃ rest, path = directory ++ '/' :: rest := by
  induction path generalizing directory with
  | nil => simp [ancestors]
  | cons char path ih =>
      have below : (∃ parent ∈ ancestors path, char :: parent = directory) ↔
          directory ≠ [] ∧ ∃ rest, char :: path = directory ++ '/' :: rest := by
        constructor
        · rintro ⟨parent, member, rfl⟩
          obtain ⟨rest, rfl⟩ := ih.mp member
          exact ⟨List.cons_ne_nil _ _, rest, rfl⟩
        · rintro ⟨some, rest, whole⟩
          cases directory with
          | nil => exact absurd rfl some
          | cons first parent =>
              obtain ⟨rfl, rfl⟩ := List.cons.inj whole
              exact ⟨parent, ih.mpr ⟨rest, rfl⟩, rfl⟩
      by_cases separator : char = '/'
      · rw [ancestors, if_pos separator, List.mem_cons, List.mem_map, below]
        subst separator
        cases directory with
        | nil => simp
        | cons first parent => simp
      · rw [ancestors, if_neg separator, List.mem_map, below]
        cases directory with
        | nil => simpa using separator
        | cons first parent => simp

/-- A directory stands once among those above a path. -/
theorem nodup_ancestors (path : List Char) : (ancestors path).Nodup := by
  induction path with
  | nil => exact List.nodup_nil
  | cons char path ih =>
      have below := ih.map (f := (char :: ·)) fun _ _ same => (List.cons.inj same).2
      rw [ancestors]
      split
      · exact List.nodup_cons.mpr ⟨by simp, below⟩
      · exact below

theorem ancestors_eq_nil {path : List Char} (flat : '/' ∉ path) : ancestors path = [] := by
  refine List.eq_nil_iff_forall_not_mem.mpr fun directory member => flat ?_
  obtain ⟨rest, rfl⟩ := mem_ancestors.mp member
  exact List.mem_append_right _ List.mem_cons_self

theorem ancestors_append {front : List Char} (flat : '/' ∉ front) (back : List Char) :
    ancestors (front ++ '/' :: back) = front :: (ancestors back).map (front ++ '/' :: ·) := by
  induction front with
  | nil => simp [ancestors]
  | cons char front ih =>
      have rest : '/' ∉ front := fun inside => flat (List.mem_cons_of_mem _ inside)
      have other : char ≠ '/' := fun same => flat (by simp [same])
      rw [List.cons_append, ancestors, if_neg other, ih rest]
      simp [Function.comp_def]

/-- The items up to the first that passes the test, with it. -/
def upToFirst (test : List Char → Bool) : List (List Char) → List (List Char)
  | [] => []
  | item :: items => if test item then [item] else item :: upToFirst test items

theorem upToFirst_sublist (test : List Char → Bool) (items : List (List Char)) :
    List.Sublist (upToFirst test items) items := by
  induction items with
  | nil => exact .slnil
  | cons item items ih =>
      rw [upToFirst]
      split
      · exact (List.nil_sublist items).cons_cons item
      · exact ih.cons_cons item

theorem upToFirst_eq_self {test : List Char → Bool} {items : List (List Char)}
    (missed : ∀ item ∈ items, test item = false) : upToFirst test items = items := by
  induction items with
  | nil => rfl
  | cons item items ih =>
      have here := missed item List.mem_cons_self
      rw [upToFirst, if_neg (by simp [here]),
        ih fun other member => missed other (List.mem_cons_of_mem _ member)]

theorem ancestorPass_none (test : List Char → Bool) {front back : List Char}
    (flat : '/' ∉ back) (tested : List (List Char)) :
    ancestorPass test (front ++ back) ⟨Slices.size front, tested⟩ =
      some (.done (false, tested)) := by
  simp [ancestorPass, Slices.after_size, Slices.find_char_eq_none flat]

theorem ancestorPass_some (test : List Char → Bool) {front part : List Char}
    (flat : '/' ∉ part) (back : List Char) (tested : List (List Char)) :
    ancestorPass test (front ++ (part ++ '/' :: back)) ⟨Slices.size front, tested⟩ =
      some (if test (front ++ part) then .done (true, tested ++ [front ++ part])
        else .again ⟨Slices.size (front ++ part) + 1, tested ++ [front ++ part]⟩) := by
  have upTo : Slices.upTo (front ++ (part ++ '/' :: back)) (Slices.size front + Slices.size part) =
      some (front ++ part) := by
    rw [← List.append_assoc, ← Slices.size_append, Slices.upTo_size]
  simp [ancestorPass, Slices.after_size, Slices.find_char flat, upTo]

/-- From a separator on the search tests the directories that are left, up to the first hit. -/
theorem climb_from (test : List Char → Bool) {fuel : Nat} {front back : List Char}
    (tested : List (List Char)) (enough : back.length < fuel) :
    Slices.loop (ancestorPass test (front ++ back)) fuel ⟨Slices.size front, tested⟩ =
      some (some (((ancestors back).map (front ++ ·)).any test,
        tested ++ upToFirst test ((ancestors back).map (front ++ ·)))) := by
  induction fuel generalizing front back tested with
  | zero => exact absurd enough (Nat.not_lt_zero _)
  | succ fuel ih =>
      by_cases deep : '/' ∈ back
      · obtain ⟨part, rest, rfl, flat⟩ := List.eq_append_cons_of_mem deep
        have pass := @ancestorPass_some test front part flat rest tested
        rw [ancestors_append flat, List.map_cons, List.any_cons, upToFirst]
        by_cases hit : test (front ++ part)
        · rw [if_pos hit] at pass
          rw [Slices.loop_done pass]
          simp [hit]
        · rw [if_neg hit] at pass
          rw [Slices.loop_again pass]
          have shorter : rest.length < fuel := by
            simp only [List.length_append, List.length_cons] at enough
            omega
          have deeper := @ih (front ++ part ++ ['/']) rest (tested ++ [front ++ part]) shorter
          have cut : Slices.size (front ++ part ++ ['/']) = Slices.size (front ++ part) + 1 :=
            Slices.size_append _ _
          rw [cut] at deeper
          simp only [List.append_assoc, List.singleton_append] at deeper
          rw [deeper]
          simp [hit, Function.comp_def]
      · rw [Slices.loop_done (ancestorPass_none test deep tested), ancestors_eq_nil deep]
        simp [upToFirst]

/-- The search comes to an end, on whole characters, and tests the directories above the path from
the top down until one passes. -/
theorem climb_eq (test : List Char → Bool) (path : List Char) :
    climb test path = some (some ((ancestors path).any test, upToFirst test (ancestors path))) := by
  have whole := @climb_from test _ [] path [] (Nat.lt_succ_self path.length)
  simpa [climb] using whole

namespace Pattern

theorem matchesAnyAncestor_eq (pattern : Pattern) (path : List Char) :
    pattern.matchesAnyAncestor path = (ancestors path).any pattern.matchesPath := by
  simp [matchesAnyAncestor, climb_eq]

/-- Whether a pattern is about a path: it matches the path or a directory above it. -/
def hits (pattern : Pattern) (path : List Char) : Bool :=
  pattern.matchesPath path || (ancestors path).any pattern.matchesPath

theorem hits_iff {pattern : Pattern} {path : List Char} :
    pattern.hits path ↔ pattern.matchesPath path ∨
      ∃ directory rest, path = directory ++ '/' :: rest ∧ pattern.matchesPath directory := by
  simp only [hits, Bool.or_eq_true, List.any_eq_true, mem_ancestors]
  refine or_congr Iff.rfl ⟨?_, ?_⟩
  · rintro ⟨directory, ⟨rest, same⟩, hit⟩
    exact ⟨directory, rest, same, hit⟩
  · rintro ⟨directory, rest, same, hit⟩
    exact ⟨directory, ⟨rest, same⟩, hit⟩

/-- What a pattern is about, it is about with everything below. -/
theorem hits_below {pattern : Pattern} {directory : List Char} (hit : pattern.hits directory)
    (rest : List Char) : pattern.hits (directory ++ '/' :: rest) := by
  refine hits_iff.mpr (.inr ?_)
  rcases hits_iff.mp hit with here | ⟨above, between, rfl, inside⟩
  · exact ⟨directory, rest, rfl, here⟩
  · exact ⟨above, between ++ '/' :: rest, by simp, inside⟩

end Pattern

/-! ## Patterns that cannot flip the verdict -/

/-- The verdict of the last of the patterns that is about the path, and that it is kept if none
is. -/
def lastVerdict (patterns : List Pattern) (path : List Char) : Bool :=
  ((patterns.filter (·.hits path)).getLast?.map (!·.exclusion)).getD false

namespace Ignore

/-- A pattern that cannot flip the verdict would confirm it. -/
theorem judge_eq (path : List Char) (excluded : Bool) (pattern : Pattern) :
    judge path excluded pattern = if pattern.hits path then !pattern.exclusion else excluded := by
  rw [judge, pattern.matchesAnyAncestor_eq]
  change (if pattern.exclusion != excluded then excluded
    else if pattern.hits path then !pattern.exclusion else excluded) = _
  cases pattern.exclusion <;> cases excluded <;> simp

theorem excludes_concat (patterns : List Pattern) (pattern : Pattern) (path : List Char) :
    excludes ⟨patterns ++ [pattern]⟩ path =
      if pattern.hits path then !pattern.exclusion else excludes ⟨patterns⟩ path := by
  rw [excludes, List.foldl_append, List.foldl_cons, List.foldl_nil, judge_eq]
  rfl

theorem excludes_eq (ignore : Ignore) (path : List Char) :
    ignore.excludes path = lastVerdict ignore.patterns path := by
  obtain ⟨patterns⟩ := ignore
  induction patterns using List.reverseRecOn with
  | nil => rfl
  | append_singleton patterns pattern ih =>
      rw [excludes_concat, ih, lastVerdict, lastVerdict, List.filter_append]
      cases hit : pattern.hits path <;> simp [hit]

/-- The last pattern that is about an excluded path is none of the exceptions. -/
theorem excludes_iff (ignore : Ignore) (path : List Char) :
    ignore.excludes path ↔ ∃ before pattern after,
      ignore.patterns = before ++ pattern :: after ∧ pattern.exclusion = false ∧
        pattern.hits path ∧ ∀ later ∈ after, ¬later.hits path := by
  obtain ⟨patterns⟩ := ignore
  induction patterns using List.reverseRecOn with
  | nil => simp [excludes]
  | append_singleton patterns pattern ih =>
      rw [excludes_concat]
      by_cases hit : pattern.hits path
      · rw [if_pos hit]
        constructor
        · intro plain
          exact ⟨patterns, pattern, [], rfl, by simpa using plain, hit, by simp⟩
        · rintro ⟨before, last, after, same, plain, -, missed⟩
          cases after using List.reverseRecOn with
          | nil =>
              obtain ⟨-, same⟩ := List.append_inj' same rfl
              simp [(List.cons.inj same).1, plain]
          | append_singleton after final =>
              rw [← List.cons_append, ← List.append_assoc] at same
              obtain ⟨-, same⟩ := List.append_inj' same rfl
              rw [(List.cons.inj same).1] at hit
              exact absurd hit (missed final (by simp))
      · rw [if_neg hit, ih]
        constructor
        · rintro ⟨before, last, after, rfl, plain, here, missed⟩
          refine ⟨before, last, after ++ [pattern], by simp, plain, here, fun later member => ?_⟩
          rcases List.mem_append.mp member with inside | final
          · exact missed later inside
          · rwa [List.mem_singleton.mp final]
        · rintro ⟨before, last, after, same, plain, here, missed⟩
          cases after using List.reverseRecOn with
          | nil =>
              obtain ⟨-, same⟩ := List.append_inj' same rfl
              rw [(List.cons.inj same).1] at hit
              exact absurd here hit
          | append_singleton after final =>
              rw [← List.cons_append, ← List.append_assoc] at same
              obtain ⟨rest, -⟩ := List.append_inj' same rfl
              exact ⟨before, last, after, rest, plain, here, fun later member =>
                missed later (List.mem_append_left _ member)⟩

/-- Without exceptions a path is excluded if a pattern is about it. -/
theorem excludes_iff_of_plain {ignore : Ignore} (plain : ignore.hasExclusions = false)
    (path : List Char) :
    ignore.excludes path ↔ ∃ pattern ∈ ignore.patterns, pattern.hits path := by
  obtain ⟨patterns⟩ := ignore
  induction patterns using List.reverseRecOn with
  | nil => simp [excludes]
  | append_singleton patterns pattern ih =>
      simp only [hasExclusions, List.any_append, List.any_cons, List.any_nil, Bool.or_false,
        Bool.or_eq_false_iff] at plain
      have before := ih (by simpa [hasExclusions] using plain.1)
      rw [excludes_concat]
      simp only [List.mem_append, List.mem_singleton, or_and_right, exists_or, exists_eq_left]
      cases hit : pattern.hits path <;> simp [plain.2, before]

theorem excludes_below {ignore : Ignore} (plain : ignore.hasExclusions = false)
    {directory : List Char} (excluded : ignore.excludes directory) (rest : List Char) :
    ignore.excludes (directory ++ '/' :: rest) := by
  rw [excludes_iff_of_plain plain] at excluded ⊢
  obtain ⟨pattern, member, hit⟩ := excluded
  exact ⟨pattern, member, Pattern.hits_below hit rest⟩

end Ignore

/-- Trying only the patterns that could flip the verdict gives the verdict of the last pattern that
is about the path. The directories above a path are tested from the top down, each once, until one
passes, and never cut through a character; without exceptions what lies in an excluded directory is
excluded, and a plain pattern more brings no path back. -/
theorem skipping_sound (ignore : Ignore) (path : List Char) :
    ignore.excludes path = lastVerdict ignore.patterns path ∧
      (∀ pattern : Pattern, ∃ tested, climb pattern.matchesPath path =
          some (some (pattern.matchesAnyAncestor path, tested)) ∧
        tested.Nodup ∧ tested = upToFirst pattern.matchesPath (ancestors path) ∧
        (∀ directory, directory ∈ ancestors path ↔ ∃ rest, path = directory ++ '/' :: rest) ∧
        (pattern.matchesAnyAncestor path = false → tested = ancestors path)) ∧
      (ignore.hasExclusions = false → ∀ directory rest, path = directory ++ '/' :: rest →
        ignore.excludes directory → ignore.excludes path) ∧
      ∀ pattern : Pattern, pattern.exclusion = false → ignore.excludes path →
        (Ignore.mk (ignore.patterns ++ [pattern])).excludes path := by
  refine ⟨ignore.excludes_eq path, fun pattern => ?_, ?_, fun pattern isPlain excluded => ?_⟩
  · refine ⟨upToFirst pattern.matchesPath (ancestors path), ?_, ?_, rfl,
      fun _ => mem_ancestors, fun missed => ?_⟩
    · rw [climb_eq, pattern.matchesAnyAncestor_eq]
    · exact (nodup_ancestors path).sublist (upToFirst_sublist _ _)
    · rw [pattern.matchesAnyAncestor_eq] at missed
      exact upToFirst_eq_self (by simpa using missed)
  · rintro plain directory rest rfl excluded
    exact ignore.excludes_below plain excluded rest
  · rw [Ignore.excludes_concat, isPlain]
    split
    · rfl
    · exact excluded

/-- Once a directory passes, those further down are not tested. -/
theorem not_tests_each_ancestor :
    ¬∀ (pattern : Pattern) (path : List Char), ∃ tested,
      climb pattern.matchesPath path = some (some (pattern.matchesAnyAncestor path, tested)) ∧
        ∀ directory ∈ ancestors path, tested.count directory = 1 := by
  intro each
  obtain ⟨tested, run, once⟩ := each ⟨false, ["a".toList]⟩ "a/b/c".toList
  have run' : climb (Pattern.matchesPath ⟨false, ["a".toList]⟩) "a/b/c".toList =
      some (some (true, ["a".toList])) := by decide
  rw [run'] at run
  obtain rfl : ["a".toList] = tested := (Prod.mk.inj (Option.some.inj (Option.some.inj run))).2
  exact absurd (once "a/b".toList (by decide)) (by decide)

end Dockerignore
end Fghj
