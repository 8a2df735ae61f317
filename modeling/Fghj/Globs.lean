import Fghj.Dockerignore
import Fghj.Library.Wildcards

/-!
# What the wildcards of a .dockerignore match

A name is matched by a loop that goes back to its last star. It tries a character of the pattern
as itself before it takes it for a star, so a star that comes to stand before a star of the name
takes that one and no more.
-/

namespace Fghj
namespace Dockerignore

/-- The name can be cut so that each `*` takes any run of characters, each `?` exactly one and every
other character itself. -/
inductive Takes : List Char → List Char → Prop
  | nil : Takes [] []
  | star {pattern name : List Char} (run : List Char) (rest : Takes pattern name) :
      Takes ('*' :: pattern) (run ++ name)
  | question {pattern name : List Char} (char : Char) (rest : Takes pattern name) :
      Takes ('?' :: pattern) (char :: name)
  | itself {pattern name : List Char} {char : Char} (noStar : char ≠ '*') (noQuestion : char ≠ '?')
      (rest : Takes pattern name) : Takes (char :: pattern) (char :: name)

/-- The name can be cut so that, besides, a `*` that comes to stand before a `*` of the name takes
that character alone. -/
inductive TakesShort : List Char → List Char → Prop
  | nil : TakesShort [] []
  | star {pattern name : List Char} (run : List Char) (other : (run ++ name).head? ≠ some '*')
      (rest : TakesShort pattern name) : TakesShort ('*' :: pattern) (run ++ name)
  | starItself {pattern name : List Char} (rest : TakesShort pattern name) :
      TakesShort ('*' :: pattern) ('*' :: name)
  | question {pattern name : List Char} (char : Char) (rest : TakesShort pattern name) :
      TakesShort ('?' :: pattern) (char :: name)
  | itself {pattern name : List Char} {char : Char} (noStar : char ≠ '*') (noQuestion : char ≠ '?')
      (rest : TakesShort pattern name) : TakesShort (char :: pattern) (char :: name)

/-- The path can be cut so that each `**` takes any number of parts and every other segment one part
it matches. -/
inductive Spans (meaning : List Char → List Char → Prop) :
    List (List Char) → List (List Char) → Prop
  | nil : Spans meaning [] []
  | deep {segments parts : List (List Char)} (run : List (List Char))
      (rest : Spans meaning segments parts) :
      Spans meaning (['*', '*'] :: segments) (run ++ parts)
  | one {segment part : List Char} {segments parts : List (List Char)}
      (single : segment ≠ ['*', '*']) (hit : meaning segment part)
      (rest : Spans meaning segments parts) : Spans meaning (segment :: segments) (part :: parts)

/-! ## The matcher of names as a search -/

def Wild (char : Char) : Prop := char = '*'

/-- The first test of a pass. -/
def Fits (char symbol : Char) : Prop := char = '?' ∨ char = symbol

instance : DecidablePred Wild := fun char => inferInstanceAs (Decidable (char = '*'))

instance (char symbol : Char) : Decidable (Fits char symbol) :=
  inferInstanceAs (Decidable (char = '?' ∨ char = symbol))

variable {pattern name : List Char}

theorem narrow_iff : Wildcards.Narrow Wild Fits pattern name ↔ TakesShort pattern name := by
  constructor
  · intro narrow
    induction narrow with
    | nil => exact .nil
    | @run token tokens symbols taken isWild unfit _ ih =>
        obtain rfl : token = '*' := isWild
        exact .star taken (fun first => unfit '*' first (.inr rfl)) ih
    | @one token symbol _ _ fit _ ih =>
        by_cases star : token = '*'
        · subst star
          rcases fit with wrong | rfl
          · cases wrong
          · exact .starItself ih
        · by_cases question : token = '?'
          · subst question
            exact .question symbol ih
          · rcases fit with same | rfl
            · exact absurd same question
            · exact .itself star question ih
  · intro takes
    induction takes with
    | nil => exact .nil
    | star run other _ ih =>
        refine .run run rfl (fun symbol first fit => ?_) ih
        rcases fit with wrong | rfl
        · cases wrong
        · exact other first
    | starItself _ ih => exact .one (.inr rfl) ih
    | question char _ ih => exact .one (.inl rfl) ih
    | itself _ _ _ ih => exact .one (.inr rfl) ih

theorem TakesShort.takes (short : TakesShort pattern name) : Takes pattern name := by
  induction short with
  | nil => exact .nil
  | star run _ _ ih => exact .star run ih
  | starItself _ ih => exact .star ['*'] ih
  | question char _ ih => exact .question char ih
  | itself noStar noQuestion _ ih => exact .itself noStar noQuestion ih

/-- A name or a pattern without a star leaves one meaning. -/
theorem Takes.short (takes : Takes pattern name) (apart : '*' ∉ pattern ∨ '*' ∉ name) :
    TakesShort pattern name := by
  induction takes with
  | nil => exact .nil
  | @star pattern name run _ ih =>
      have clear : '*' ∉ run ++ name := by
        rcases apart with none | clear
        · exact absurd List.mem_cons_self none
        · exact clear
      refine .star run (fun first => clear (List.mem_of_mem_head? first)) (ih (.inr ?_))
      exact fun inside => clear (List.mem_append_right _ inside)
  | question char _ ih =>
      refine .question char (ih (apart.imp ?_ ?_))
      · exact fun clear inside => clear (List.mem_cons_of_mem _ inside)
      · exact fun clear inside => clear (List.mem_cons_of_mem _ inside)
  | itself noStar noQuestion _ ih =>
      refine .itself noStar noQuestion (ih (apart.imp ?_ ?_))
      · exact fun clear inside => clear (List.mem_cons_of_mem _ inside)
      · exact fun clear inside => clear (List.mem_cons_of_mem _ inside)

/-- A cursor and the search it stands for. -/
structure Stands (p n : List Char) (search : Wildcards.Search Char Char) (cursor : Cursor) :
    Prop where
  within : cursor.pi ≤ p.length
  tokens : search.tokens = p.drop cursor.pi
  symbols : search.symbols = n.drop cursor.ni
  starWithin : ∀ sp sn, cursor.star = some (sp, sn) → sp < p.length
  star : search.star = cursor.star.map fun behind => (p.drop (behind.1 + 1), n.drop behind.2)

theorem drop_eq_cons {α : Type} {items rest : List α} {at_ : Nat} {item : α}
    (left : items.drop at_ = item :: rest) :
    at_ < items.length ∧ items[at_]? = some item ∧ items.drop (at_ + 1) = rest := by
  have first := congrArg List.head? left
  rw [List.head?_drop] at first
  have after := congrArg (List.drop 1) left
  rw [List.drop_drop] at after
  exact ⟨(List.getElem?_eq_some_iff.mp first).1, first, after⟩

/-- What the search does where it stands, the loop over the name does. -/
def Follows (p n : List Char) (cursor : Cursor) : Pass (Wildcards.Search Char Char) Bool → Prop
  | .again next => ∃ follower, matchPass p n cursor = some (.again follower) ∧
      Stands p n next follower
  | .done outcome => matchPass p n cursor = some (.done outcome)

namespace Stands

variable {p n : List Char} {search : Wildcards.Search Char Char} {cursor : Cursor}

theorem retry (stands : Stands p n search cursor) {char : Char}
    (inName : n[cursor.ni]? = some char)
    (unfit : ¬(p[cursor.pi]? = some '?' ∨ (cursor.pi < p.length ∧ p[cursor.pi]? = some char)))
    (noStar : p[cursor.pi]? ≠ some '*') :
    Follows p n cursor (Wildcards.Search.retry search.star) := by
  have inside := (List.getElem?_eq_some_iff.mp inName).1
  have result : matchPass p n cursor = some (cursor.star.elim (.done false) fun behind =>
      .again ⟨behind.1 + 1, behind.2 + 1, some (behind.1, behind.2 + 1)⟩) := by
    rw [matchPass, if_pos inside, inName, if_neg unfit, if_neg noStar]
    cases cursor.star <;> rfl
  rw [stands.star]
  cases star : cursor.star with
  | none =>
      rw [star] at result
      exact result
  | some behind =>
      obtain ⟨sp, sn⟩ := behind
      rw [star] at result
      have before := stands.starWithin sp sn star
      refine ⟨_, result, before, rfl, by simp, ?_, by simp⟩
      rintro _ _ ⟨⟩
      exact before

theorem step (stands : Stands p n search cursor) :
    Follows p n cursor (Wildcards.Search.pass Wild Fits search) := by
  obtain ⟨tokens, symbols, star⟩ := search
  have atPattern := stands.tokens
  have atName := stands.symbols
  simp only at atPattern atName
  cases symbols with
  | nil =>
      have ended : ¬cursor.ni < n.length := Nat.not_lt.mpr (List.drop_eq_nil_iff.mp atName.symm)
      change matchPass p n cursor = some (.done (tokens.all fun token => decide (token = '*')))
      rw [matchPass, if_neg ended, if_pos stands.within, atPattern]
      simp only [beq_eq_decide]
  | cons symbol symbols =>
      obtain ⟨inside, inName, afterName⟩ := drop_eq_cons atName.symm
      cases tokens with
      | nil =>
          have past := List.drop_eq_nil_iff.mp atPattern.symm
          have none := List.getElem?_eq_none past
          exact stands.retry inName (by simp [none]) (by simp [none])
      | cons token tokens =>
          obtain ⟨within, inPattern, afterPattern⟩ := drop_eq_cons atPattern.symm
          have first : (p[cursor.pi]? = some '?' ∨
              (cursor.pi < p.length ∧ p[cursor.pi]? = n[cursor.ni]?)) ↔ Fits token symbol := by
            rw [inPattern, inName, Option.some_inj, Option.some_inj]
            exact or_congr Iff.rfl (and_iff_right within)
          have second : p[cursor.pi]? = some '*' ↔ Wild token := by
            rw [inPattern, Option.some_inj]
            rfl
          by_cases fit : Fits token symbol
          · have result : matchPass p n cursor =
                some (.again ⟨cursor.pi + 1, cursor.ni + 1, cursor.star⟩) := by
              rw [matchPass, if_pos inside, if_pos (first.mpr fit)]
            rw [Wildcards.Search.pass_cons, if_pos fit]
            exact ⟨_, result, within, afterPattern.symm, afterName.symm, stands.starWithin,
              stands.star⟩
          · by_cases isWild : Wild token
            · have result : matchPass p n cursor =
                  some (.again ⟨cursor.pi + 1, cursor.ni, some (cursor.pi, cursor.ni)⟩) := by
                rw [matchPass, if_pos inside, if_neg (first.not.mpr fit),
                  if_pos (second.mpr isWild)]
              rw [Wildcards.Search.pass_cons, if_neg fit, if_pos isWild]
              refine ⟨_, result, within, afterPattern.symm, atName, ?_, ?_⟩
              · rintro _ _ ⟨⟩
                exact within
              · simp only [Option.map_some, afterPattern, ← atName]
            · rw [Wildcards.Search.pass_cons, if_neg fit, if_neg isWild]
              refine stands.retry inName ?_ (second.not.mpr isWild)
              rw [← inName]
              exact first.not.mpr fit

end Stands

theorem matchLoop_eq (p n : List Char) :
    matchLoop p n = (Pass.loop (Wildcards.Search.pass Wild Fits)
      ((n.length + 1) * (p.length + 1)) ⟨p, n, none⟩).map some := by
  have start : Stands p n ⟨p, n, none⟩ ⟨0, 0, none⟩ := by
    refine ⟨Nat.zero_le _, rfl, rfl, ?_, rfl⟩
    rintro _ _ ⟨⟩
  refine Pass.loop_map (Stands p n) some ?_ ?_ _ start
  · intro search cursor next stands goesOn
    have step := stands.step
    rw [goesOn] at step
    obtain ⟨follower, result, after⟩ := step
    exact ⟨follower, by rw [result]; rfl, after⟩
  · intro search cursor outcome stands ends
    have step := stands.step
    rw [ends] at step
    change matchPass p n cursor = _ at step
    rw [step]
    rfl

/-- The loop ends, slices within the pattern, and decides the narrower meaning. -/
theorem matchLoop_spec (p n : List Char) :
    ∃ outcome, matchLoop p n = some (some outcome) ∧ (outcome ↔ TakesShort p n) := by
  obtain ⟨outcome, found, answer⟩ := @Wildcards.Search.loop_narrow _ _ Wild Fits _ _ p n
  exact ⟨outcome, by rw [matchLoop_eq, found]; rfl, answer.trans narrow_iff⟩

theorem matchesOne_iff (p n : List Char) : matchesOne p n ↔ TakesShort p n := by
  obtain ⟨outcome, run, answer⟩ := matchLoop_spec p n
  rw [matchesOne, run]
  exact answer

/-! ## Paths -/

theorem spans_cons_of_deep {meaning : List Char → List Char → Prop}
    {segments parts : List (List Char)} :
    Spans meaning (['*', '*'] :: segments) parts ↔
      ∃ skip ≤ parts.length, Spans meaning segments (parts.drop skip) := by
  constructor
  · intro spans
    cases spans with
    | deep run rest => exact ⟨run.length, by simp, by rwa [List.drop_left]⟩
    | one single _ _ => exact absurd rfl single
  · rintro ⟨skip, -, rest⟩
    have whole := Spans.deep (parts.take skip) rest
    rwa [List.take_append_drop] at whole

theorem spans_cons_of_single {meaning : List Char → List Char → Prop} {segment part : List Char}
    {segments parts : List (List Char)} (single : segment ≠ ['*', '*']) :
    Spans meaning (segment :: segments) (part :: parts) ↔
      meaning segment part ∧ Spans meaning segments parts := by
  refine ⟨fun spans => ?_, fun both => .one single both.1 both.2⟩
  generalize whole : part :: parts = path at spans
  cases spans with
  | deep => exact absurd rfl single
  | one _ hit spans =>
      cases whole
      exact ⟨hit, spans⟩

theorem matchesSegments_deep (rest path : List (List Char)) :
    matchesSegments (['*', '*'] :: rest) path =
      (List.range (path.length + 1)).any fun skip => matchesSegments rest (path.drop skip) :=
  if_pos rfl

theorem matchesSegments_single {head : List Char} (single : head ≠ ['*', '*']) (first : List Char)
    (rest tail : List (List Char)) :
    matchesSegments (head :: rest) (first :: tail) =
      (matchesOne head first && matchesSegments rest tail) :=
  if_neg single

theorem matchesSegments_over {head : List Char} (single : head ≠ ['*', '*'])
    (rest : List (List Char)) : matchesSegments (head :: rest) [] = false :=
  if_neg single

theorem matchesSegments_iff_spans (segments path : List (List Char)) :
    matchesSegments segments path ↔
      Spans (fun segment part => matchesOne segment part = true) segments path := by
  induction segments generalizing path with
  | nil =>
      change path.isEmpty = true ↔ _
      rw [List.isEmpty_iff]
      constructor
      · rintro rfl
        exact .nil
      · intro spans
        cases spans
        rfl
  | cons head rest ih =>
      by_cases deep : head = ['*', '*']
      · subst deep
        rw [matchesSegments_deep, spans_cons_of_deep]
        simp only [List.any_eq_true, List.mem_range, Nat.lt_succ_iff, ih]
      · cases path with
        | nil =>
            rw [matchesSegments_over deep]
            refine ⟨fun wrong => absurd wrong Bool.false_ne_true, fun spans => ?_⟩
            generalize ([] : List (List Char)) = none, empty : ([] : List (List Char)) = none
              at spans
            cases spans with
            | deep => exact absurd rfl deep
            | one => cases empty
        | cons first tail =>
            rw [matchesSegments_single deep, Bool.and_eq_true, ih, spans_cons_of_single deep]

theorem Spans.imp {meaning other : List Char → List Char → Prop}
    {segments parts : List (List Char)} (spans : Spans meaning segments parts)
    (weaker : ∀ segment ∈ segments, segment ≠ ['*', '*'] → ∀ part ∈ parts,
      meaning segment part → other segment part) :
    Spans other segments parts := by
  induction spans with
  | nil => exact .nil
  | deep run _ ih =>
      refine .deep run (ih fun segment inside single part member => ?_)
      exact weaker segment (List.mem_cons_of_mem _ inside) single part
        (List.mem_append_right _ member)
  | @one segment part _ _ single hit _ ih =>
      refine .one single (weaker segment List.mem_cons_self single part List.mem_cons_self hit)
        (ih fun segment inside single part member => ?_)
      exact weaker segment (List.mem_cons_of_mem _ inside) single part
        (List.mem_cons_of_mem _ member)

theorem matchesSegments_iff (segments path : List (List Char)) :
    matchesSegments segments path ↔ Spans TakesShort segments path := by
  rw [matchesSegments_iff_spans]
  constructor
  · exact fun spans => spans.imp fun segment _ _ part _ => (matchesOne_iff segment part).mp
  · exact fun spans => spans.imp fun segment _ _ part _ => (matchesOne_iff segment part).mpr

/-! ## Where a star of the name makes a difference -/

/-- Characters that are read one by one leave the rest to the rest. -/
theorem takesShort_append_iff {consumed rest taken left : List Char}
    (each : List.Forall₂ Fits consumed taken) :
    TakesShort (consumed ++ rest) (taken ++ left) ↔ TakesShort rest left := by
  induction each with
  | nil => exact Iff.rfl
  | cons fit _ ih =>
      rw [List.cons_append, List.cons_append, ← narrow_iff, Wildcards.narrow_cons_of_fits fit,
        narrow_iff, ih]

theorem Takes.append_of_fits {consumed rest taken left : List Char}
    (each : List.Forall₂ Fits consumed taken) (takes : Takes rest left) :
    Takes (consumed ++ rest) (taken ++ left) := by
  induction each with
  | nil => exact takes
  | @cons char symbol _ _ fit _ ih =>
      by_cases star : char = '*'
      · subst star
        exact .star [symbol] ih
      · by_cases question : char = '?'
        · subst question
          exact .question symbol ih
        · rcases fit with same | rfl
          · exact absurd same question
          · exact .itself star question ih

theorem TakesShort.length_eq (short : TakesShort pattern name) (plain : '*' ∉ pattern) :
    pattern.length = name.length := by
  induction short with
  | nil => rfl
  | star => exact absurd List.mem_cons_self plain
  | starItself => exact absurd List.mem_cons_self plain
  | question _ _ ih => simp [ih fun inside => plain (List.mem_cons_of_mem _ inside)]
  | itself _ _ _ ih => simp [ih fun inside => plain (List.mem_cons_of_mem _ inside)]

theorem fits_questions (name : List Char) :
    List.Forall₂ Fits (List.replicate name.length '?') name := by
  induction name with
  | nil => exact .nil
  | cons char name ih => exact .cons (.inl rfl) ih

theorem takes_questions (name : List Char) : Takes (List.replicate name.length '?') name := by
  simpa using Takes.append_of_fits (fits_questions name) .nil

/-- A segment of question marks and stars, no two of them in a row. -/
structure Probe (segment : List Char) : Prop where
  made : ∀ char ∈ segment, char = '?' ∨ char = '*'
  loose : ¬['*', '*'] <:+: segment

theorem Probe.single {segment : List Char} (probe : Probe segment) : segment ≠ ['*', '*'] := by
  rintro rfl
  exact probe.loose (List.infix_refl _)

theorem probe_of_count {segment : List Char} (made : ∀ char ∈ segment, char = '?' ∨ char = '*')
    (few : segment.count '*' ≤ 1) : Probe segment := by
  refine ⟨made, fun ⟨front, back, whole⟩ => ?_⟩
  rw [← whole] at few
  simp only [List.count_append, List.count_cons_self, List.count_nil] at few
  omega

theorem probe_questions (count : Nat) : Probe (List.replicate count '?') :=
  probe_of_count (fun _ member => .inl (List.eq_of_mem_replicate member))
    (by rw [List.count_replicate]; simp)

/-- A pattern whose star takes nothing in a name that has a star. -/
theorem exists_pattern {name : List Char} (star : '*' ∈ name) :
    ∃ pattern, Probe pattern ∧ Takes pattern name ∧ ¬TakesShort pattern name := by
  obtain ⟨front, back, rfl⟩ := List.append_of_mem star
  have questions := fits_questions front
  refine ⟨List.replicate front.length '?' ++ '*' :: List.replicate (back.length + 1) '?', ?_, ?_,
    fun short => ?_⟩
  · refine probe_of_count (fun char member => ?_) ?_
    · rcases List.mem_append.mp member with inside | inside
      · exact .inl (List.eq_of_mem_replicate inside)
      · rcases List.mem_cons.mp inside with rfl | inside
        · exact .inr rfl
        · exact .inl (List.eq_of_mem_replicate inside)
    · simp [List.count_replicate]
  · exact .append_of_fits questions (.star [] (takes_questions ('*' :: back)))
  · rw [takesShort_append_iff questions, ← narrow_iff,
      Wildcards.narrow_cons_of_fits (.inr rfl), narrow_iff] at short
    have same := short.length_eq (by simp)
    simp at same

/-- A character that a character of a pattern stands for. -/
def instanceOf (char : Char) : Char := if char = '?' then 'a' else char

theorem fits_instances (pattern : List Char) :
    List.Forall₂ Fits pattern (pattern.map instanceOf) := by
  induction pattern with
  | nil => exact .nil
  | cons char pattern ih =>
      refine .cons ?_ ih
      by_cases question : char = '?'
      · exact .inl question
      · exact .inr (by rw [instanceOf, if_neg question])

theorem exists_last_star {pattern : List Char} (star : '*' ∈ pattern) :
    ∃ front back, pattern = front ++ '*' :: back ∧ '*' ∉ back := by
  obtain ⟨back, front, same, absent⟩ := List.eq_append_cons_of_mem (List.mem_reverse.mpr star)
  refine ⟨front.reverse, back.reverse, ?_, by simpa using absent⟩
  rw [← List.reverse_reverse pattern, same]
  simp

/-- A name in which the last star of a pattern would have to take a star and more. -/
theorem exists_name {pattern : List Char} (star : '*' ∈ pattern) :
    ∃ name, Takes pattern name ∧ ¬TakesShort pattern name := by
  obtain ⟨front, back, rfl, plain⟩ := exists_last_star star
  have before := fits_instances front
  have after : Takes back (back.map instanceOf) := by
    simpa using Takes.append_of_fits (fits_instances back) .nil
  refine ⟨front.map instanceOf ++ '*' :: 'a' :: back.map instanceOf, ?_, fun short => ?_⟩
  · exact .append_of_fits before (.star ['*', 'a'] after)
  · rw [takesShort_append_iff before, ← narrow_iff,
      Wildcards.narrow_cons_of_fits (.inr rfl), narrow_iff] at short
    have same := short.length_eq plain
    simp at same

theorem spans_questions (path : List (List Char)) :
    Spans Takes (path.map fun part => List.replicate part.length '?') path := by
  induction path with
  | nil => exact .nil
  | cons part path ih => exact .one (probe_questions _).single (takes_questions part) ih

/-- The other parts of a path can be matched without a star. -/
theorem exists_segments {path : List (List Char)} {part : List Char} (member : part ∈ path)
    (star : '*' ∈ part) :
    ∃ segments, (∀ segment ∈ segments, Probe segment) ∧ Spans Takes segments path ∧
      ¬Spans TakesShort segments path := by
  induction path with
  | nil => cases member
  | cons first path ih =>
      rcases List.mem_cons.mp member with rfl | later
      · obtain ⟨pattern, probe, takes, fails⟩ := exists_pattern star
        refine ⟨pattern :: path.map fun part => List.replicate part.length '?', ?_,
          .one probe.single takes (spans_questions path), fun spans => fails ?_⟩
        · rw [List.forall_mem_cons]
          refine ⟨probe, fun segment inside => ?_⟩
          obtain ⟨other, -, rfl⟩ := List.mem_map.mp inside
          exact probe_questions _
        · exact ((spans_cons_of_single probe.single).mp spans).1
      · obtain ⟨segments, probes, spans, fails⟩ := ih later
        have probe := probe_questions first.length
        refine ⟨List.replicate first.length '?' :: segments,
          List.forall_mem_cons.mpr ⟨probe, probes⟩,
          .one probe.single (takes_questions first) spans, fun short => fails ?_⟩
        exact ((spans_cons_of_single probe.single).mp short).2

theorem Spans.takes {segments parts : List (List Char)} (spans : Spans TakesShort segments parts) :
    Spans Takes segments parts :=
  spans.imp fun _ _ _ _ _ => TakesShort.takes

/-- The matchers come to an end and match nothing that the wildcards do not mean. They match all
that these mean except where a star of the pattern comes to stand before a star of the name and
would have to take nothing or more than that: in no name and under no pattern without a star, but in
every name and under every pattern with one. -/
theorem wildcards_exact (pattern name : List Char) (segments path : List (List Char)) :
    (∃ outcome, matchLoop pattern name = some (some outcome) ∧
      matchesOne pattern name = outcome) ∧
    ((matchesOne pattern name ↔ Takes pattern name) ↔
      (Takes pattern name → TakesShort pattern name)) ∧
    ((∀ any, matchesOne any name ↔ Takes any name) ↔ '*' ∉ name) ∧
    ((∀ any, matchesOne pattern any ↔ Takes pattern any) ↔ '*' ∉ pattern) ∧
    (matchesSegments segments path ↔
      Spans (fun segment part => matchesOne segment part = true) segments path) ∧
    ((matchesSegments segments path ↔ Spans Takes segments path) ↔
      (Spans Takes segments path → Spans TakesShort segments path)) ∧
    ((∀ any, matchesSegments any path ↔ Spans Takes any path) ↔ ∀ part ∈ path, '*' ∉ part) := by
  refine ⟨?_, ?_, ?_, ?_, matchesSegments_iff_spans segments path, ?_, ?_⟩
  · obtain ⟨outcome, run, -⟩ := matchLoop_spec pattern name
    exact ⟨outcome, run, by rw [matchesOne, run]; rfl⟩
  · rw [matchesOne_iff]
    exact ⟨Iff.mpr, fun narrows => ⟨TakesShort.takes, narrows⟩⟩
  · refine ⟨fun meant star => ?_, fun plain any => ?_⟩
    · obtain ⟨any, -, takes, fails⟩ := exists_pattern star
      exact fails ((matchesOne_iff any name).mp ((meant any).mpr takes))
    · rw [matchesOne_iff]
      exact ⟨TakesShort.takes, fun takes => takes.short (.inr plain)⟩
  · refine ⟨fun meant star => ?_, fun plain any => ?_⟩
    · obtain ⟨any, takes, fails⟩ := exists_name star
      exact fails ((matchesOne_iff pattern any).mp ((meant any).mpr takes))
    · rw [matchesOne_iff]
      exact ⟨TakesShort.takes, fun takes => takes.short (.inl plain)⟩
  · rw [matchesSegments_iff]
    exact ⟨Iff.mpr, fun narrows => ⟨Spans.takes, narrows⟩⟩
  · refine ⟨fun meant part member star => ?_, fun plain any => ?_⟩
    · obtain ⟨any, -, spans, fails⟩ := exists_segments member star
      exact fails ((matchesSegments_iff any path).mp ((meant any).mpr spans))
    · rw [matchesSegments_iff]
      refine ⟨Spans.takes, fun spans => spans.imp fun _ _ _ part member takes => ?_⟩
      exact takes.short (.inr (plain part member))

/-- A star does not match a file named after it that has one character more. -/
theorem star_misses_star : ¬∀ pattern name, matchesOne pattern name ↔ Takes pattern name := by
  intro meant
  have takes : Takes "*".toList "*a".toList := .star "*a".toList .nil
  exact absurd ((meant _ _).mpr takes) (by decide)

end Dockerignore
end Fghj
