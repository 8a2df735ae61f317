import Fghj.Library.Slices
import Fghj.NodeSpecs

/-!
# Templates

Two scanners go over the same texts: the one that replaces the templates of an environment, and the
one that lists the paths in them when the graph is resolved. Both cut a text in the same places, at
the first token and at the first closing brace after it, and what one asks a domain for is what the
other lists.
-/

namespace Fghj

open Std Orchestrator

namespace Templates

/-! ## The expander -/

/-- The loop of the expander: what is left of the text, what is put out, and what `sibling_domain`
was called for. -/
structure Scan where
  rest : List Char
  out : List Char := []
  calls : List (List Char × DomainZone) := []

section Expand

variable (config : NodeConfig) (rawDomain domain : String) (graph : Graph)

/-- One round, unless a slice is no slice. -/
def expandPass (scan : Scan) : Option (Pass Scan (List Char × List (List Char × DomainZone))) :=
  match Slices.find tokenRaw scan.rest with
  | none => some (.done (scan.out ++ scan.rest, scan.calls))
  | some start => do
      let found ← Slices.after scan.rest start
      let http := tokenHttp.isPrefixOf found
      let tokenLen := Slices.size (if http then tokenHttp else tokenRaw)
      let zone : DomainZone := if http then .http else .raw
      let front ← Slices.upTo scan.rest start
      match Slices.find ['}'] found with
      | none => some (.done (scan.out ++ front ++ found, scan.calls))
      | some endRel => do
          let stop := start + endRel
          let inner ← Slices.between scan.rest (start + tokenLen) stop
          let named := Text.stripPrefix [':'] inner
          let resolved :=
            match named with
            | none => some (if http then domain else rawDomain)
            | some name => siblingDomain config (String.ofList name) graph zone
          let text ←
            match resolved with
            | some domain => some domain.toList
            | none => Slices.between scan.rest start (stop + 1)
          let rest ← Slices.after scan.rest (stop + 1)
          some (.again
            { rest
              out := scan.out ++ front ++ text
              calls := scan.calls ++ named.toList.map fun name => (name, zone) })

/-- `expand_service_fqdn_templates`, with the calls it makes; every round consumes a template, so a
text's length is rounds enough. -/
def expand (value : List Char) : Option (Option (List Char × List (List Char × DomainZone))) :=
  Slices.loop (expandPass config rawDomain domain graph) (value.length + 1) { rest := value }

end Expand

/-! ## The checker -/

/-- The loop of the checker. -/
structure Paths where
  rest : List Char
  paths : List (List Char) := []

def pathsPass (scan : Paths) : Option (Pass Paths (List (List Char))) :=
  match Slices.find tokenRaw scan.rest with
  | none => some (.done scan.paths)
  | some start => do
      let after ← Slices.after scan.rest (start + Slices.size tokenRaw)
      let after := (Text.stripPrefix "_HTTP".toList after).getD after
      match Slices.find ['}'] after with
      | none => some (.done scan.paths)
      | some stop => do
          let inner ← Slices.upTo after stop
          let rest ← Slices.after after (stop + 1)
          some (.again { rest, paths := scan.paths ++ (Text.stripPrefix [':'] inner).toList })

def scanPaths (value : List Char) : Option (Option (List (List Char))) :=
  Slices.loop pathsPass (value.length + 1) { rest := value }

/-- Every path named by a template. -/
def fqdnTemplatePaths (value : String) : List String :=
  ((((scanPaths value.toList).bind id).getD [])).map String.ofList

/-! ## Where a text is cut -/

/-- A template of a text, with what stands before it. -/
structure Cut where
  front : List Char
  http : Bool
  inner : List Char

def token (http : Bool) : List Char := if http then tokenHttp else tokenRaw

namespace Cut

variable (cut : Cut)

def zone : DomainZone := if cut.http then .http else .raw

/-- The template as the text has it. -/
def text : List Char := token cut.http ++ cut.inner ++ ['}']

/-- The path in it, if there is one. -/
def path : Option (List Char) := Text.stripPrefix [':'] cut.inner

end Cut

/-- The templates of a text, from the left, and the rest. -/
inductive Scanned : List Char → List Cut → List Char → Prop
  | plain {value : List Char} (absent : ∀ rest, rest <:+ value → ¬tokenRaw <+: rest) :
      Scanned value [] value
  | unclosed {front found : List Char} (first : Slices.First tokenRaw front found)
      (unclosed : '}' ∉ found) : Scanned (front ++ found) [] (front ++ found)
  | cut {cut : Cut} {rest tail : List Char} {cuts : List Cut}
      (first : Slices.First tokenRaw cut.front (cut.text ++ rest))
      (http : cut.http = tokenHttp.isPrefixOf (cut.text ++ rest)) (closed : '}' ∉ cut.inner)
      (more : Scanned rest cuts tail) :
      Scanned (cut.front ++ cut.text ++ rest) (cut :: cuts) tail

theorem tokenHttp_eq : tokenHttp = tokenRaw ++ "_HTTP".toList := by decide

theorem tokenRaw_ne_nil : tokenRaw ≠ [] := by decide

theorem brace_not_mem_token (http : Bool) : '}' ∉ token http := by
  cases http <;> decide

theorem tokenRaw_prefix_token (http : Bool) : tokenRaw <+: token http := by
  cases http with
  | false => exact List.prefix_refl _
  | true => exact ⟨_, tokenHttp_eq.symm⟩

/-- The token that stands where the shorter one does. -/
theorem exists_token {found : List Char} (raw : tokenRaw <+: found) :
    ∃ http more, found = token http ++ more ∧ http = tokenHttp.isPrefixOf found := by
  cases http : tokenHttp.isPrefixOf found with
  | false =>
      obtain ⟨more, same⟩ := raw
      exact ⟨false, more, same.symm, rfl⟩
  | true =>
      obtain ⟨more, same⟩ := List.isPrefixOf_iff_prefix.mp http
      exact ⟨true, more, same.symm, rfl⟩

theorem exists_scanned (value : List Char) : ∃ cuts tail, Scanned value cuts tail := by
  induction long : value.length using Nat.strongRecOn generalizing value with
  | _ length ih =>
      rcases Slices.exists_first tokenRaw_ne_nil value with
        absent | ⟨front, found, rfl, first⟩
      · exact ⟨[], value, .plain absent⟩
      · by_cases closed : '}' ∈ found
        · obtain ⟨http, more, rfl, http_eq⟩ := exists_token first.1
          -- the token ends before any brace
          have later : '}' ∈ more :=
            (List.mem_append.mp closed).resolve_left (brace_not_mem_token http)
          obtain ⟨inner, rest, rfl, absent⟩ := List.eq_append_cons_of_mem later
          have shape : token http ++ (inner ++ '}' :: rest) =
              (⟨front, http, inner⟩ : Cut).text ++ rest := by
            simp [Cut.text]
          rw [shape] at first http_eq long ⊢
          have shorter : rest.length < length := by
            simp only [← long, Cut.text, List.length_append, List.length_singleton]
            omega
          obtain ⟨cuts, tail, scanned⟩ := ih rest.length shorter rest rfl
          rw [← List.append_assoc]
          exact ⟨_, tail, .cut first http_eq absent scanned⟩
        · exact ⟨[], _, .unclosed first closed⟩

variable {value tail : List Char} {cuts : List Cut}

theorem Scanned.length_le (scanned : Scanned value cuts tail) : cuts.length ≤ value.length := by
  induction scanned with
  | plain => exact Nat.zero_le _
  | unclosed => exact Nat.zero_le _
  | cut first http closed more ih =>
      simp only [List.length_cons, Cut.text, List.length_append, List.length_nil]
      omega

section Cuts

variable {cut : Cut} {rest : List Char}

theorem find_token (first : Slices.First tokenRaw cut.front (cut.text ++ rest)) :
    Slices.find tokenRaw (cut.front ++ cut.text ++ rest) = some (Slices.size cut.front) := by
  rw [List.append_assoc]
  exact Slices.find_eq_some first

/-- The first brace after the start of a template is its last character. -/
theorem find_brace (closed : '}' ∉ cut.inner) : Slices.find ['}'] (cut.text ++ rest) =
    some (Slices.size (token cut.http ++ cut.inner)) := by
  have shape : cut.text ++ rest = token cut.http ++ cut.inner ++ '}' :: rest := by
    simp [Cut.text]
  have absent : '}' ∉ token cut.http ++ cut.inner :=
    fun member => (List.mem_append.mp member).elim (brace_not_mem_token cut.http) closed
  rw [shape, Slices.find_char absent]

theorem size_brace : Slices.size ['}'] = 1 := by decide

end Cuts

section Expand

variable (config : NodeConfig) (rawDomain domain : String) (graph : Graph)

/-- The domain a template means. -/
def Cut.resolved (cut : Cut) : Option String :=
  match cut.path with
  | none => some (if cut.http then domain else rawDomain)
  | some name => siblingDomain config (String.ofList name) graph cut.zone

/-- A template as it is put out, with what stands before it. -/
def Cut.rendered (cut : Cut) : List Char :=
  cut.front ++ ((cut.resolved config rawDomain domain graph).map String.toList).getD cut.text

/-- The call for the path of a template. -/
def Cut.call (cut : Cut) : Option (List Char × DomainZone) :=
  cut.path.map fun name => (name, cut.zone)

/-- One round of the expander takes one template. -/
theorem expandPass_cut {cut : Cut} {rest : List Char}
    (first : Slices.First tokenRaw cut.front (cut.text ++ rest))
    (http : cut.http = tokenHttp.isPrefixOf (cut.text ++ rest)) (closed : '}' ∉ cut.inner)
    (out : List Char) (calls : List (List Char × DomainZone)) :
    expandPass config rawDomain domain graph ⟨cut.front ++ cut.text ++ rest, out, calls⟩ =
      some (.again ⟨rest, out ++ cut.rendered config rawDomain domain graph,
        calls ++ cut.call.toList⟩) := by
  have after_front : Slices.after (cut.front ++ cut.text ++ rest) (Slices.size cut.front) =
      some (cut.text ++ rest) := by
    rw [List.append_assoc, Slices.after_size]
  have upTo_front : Slices.upTo (cut.front ++ cut.text ++ rest) (Slices.size cut.front) =
      some cut.front := by
    rw [List.append_assoc, Slices.upTo_size]
  have inner : Slices.between (cut.front ++ cut.text ++ rest)
      (Slices.size cut.front + Slices.size (token cut.http))
      (Slices.size cut.front + Slices.size (token cut.http ++ cut.inner)) = some cut.inner := by
    have shape : cut.front ++ cut.text ++ rest =
        (cut.front ++ token cut.http) ++ cut.inner ++ ('}' :: rest) := by
      simp [Cut.text]
    rw [shape, ← Slices.size_append, Slices.size_append (token cut.http), ← Nat.add_assoc,
      ← Slices.size_append, Slices.between_size]
  have whole : Slices.between (cut.front ++ cut.text ++ rest) (Slices.size cut.front)
      (Slices.size cut.front + Slices.size (token cut.http ++ cut.inner) + 1) = some cut.text := by
    rw [Nat.add_assoc, ← size_brace, ← Slices.size_append]
    exact Slices.between_size cut.front cut.text rest
  have left : Slices.after (cut.front ++ cut.text ++ rest)
      (Slices.size cut.front + Slices.size (token cut.http ++ cut.inner) + 1) = some rest := by
    rw [Nat.add_assoc, ← size_brace, ← Slices.size_append, ← Slices.size_append]
    exact Slices.after_size (cut.front ++ cut.text) rest
  unfold expandPass
  simp only [find_token first, after_front, upTo_front, Option.bind_eq_bind, Option.bind_some,
    ← http, find_brace closed]
  change (Slices.between _ (_ + Slices.size (token cut.http)) _).bind _ = _
  simp only [inner, whole, left, Option.bind_some]
  cases path : cut.path with
  | none =>
      have named : Text.stripPrefix [':'] cut.inner = none := path
      simp [named, Cut.rendered, Cut.resolved, path, Cut.call]
  | some name =>
      have named : Text.stripPrefix [':'] cut.inner = some name := path
      simp only [named, Cut.rendered, Cut.resolved, path, Cut.call, Cut.zone]
      cases siblingDomain config (String.ofList name) graph
        (if cut.http = true then .http else .raw) <;> simp

theorem expandPass_plain {value : List Char} (absent : ∀ rest, rest <:+ value → ¬tokenRaw <+: rest)
    (out : List Char) (calls : List (List Char × DomainZone)) :
    expandPass config rawDomain domain graph ⟨value, out, calls⟩ =
      some (.done (out ++ value, calls)) := by
  simp only [expandPass, Slices.find_eq_none tokenRaw_ne_nil absent]

theorem expandPass_unclosed {front found : List Char} (first : Slices.First tokenRaw front found)
    (unclosed : '}' ∉ found) (out : List Char) (calls : List (List Char × DomainZone)) :
    expandPass config rawDomain domain graph ⟨front ++ found, out, calls⟩ =
      some (.done (out ++ (front ++ found), calls)) := by
  simp only [expandPass, Slices.find_eq_some first, Slices.after_size, Slices.upTo_size,
    Option.bind_eq_bind, Option.bind_some, Slices.find_char_eq_none unclosed, List.append_assoc]

/-- The expander comes to the end of every text, and puts out its templates one by one. -/
theorem expand_loop (scanned : Scanned value cuts tail) (fuel : Nat) (enough : cuts.length ≤ fuel)
    (out : List Char) (calls : List (List Char × DomainZone)) :
    Slices.loop (expandPass config rawDomain domain graph) (fuel + 1) ⟨value, out, calls⟩ =
      some (some (out ++ cuts.flatMap (Cut.rendered config rawDomain domain graph) ++ tail,
        calls ++ cuts.filterMap Cut.call)) := by
  induction scanned generalizing fuel out calls with
  | plain absent =>
      rw [Slices.loop_done (expandPass_plain config rawDomain domain graph absent out calls)]
      simp
  | unclosed first unclosed =>
      rw [Slices.loop_done
        (expandPass_unclosed config rawDomain domain graph first unclosed out calls)]
      simp
  | @cut cut rest tail cuts first http closed more ih =>
      obtain ⟨fuel, rfl⟩ : ∃ less, fuel = less + 1 :=
        Nat.exists_eq_add_one_of_ne_zero (Nat.ne_of_gt (Nat.zero_lt_of_lt enough))
      rw [Slices.loop_again
          (expandPass_cut config rawDomain domain graph first http closed out calls),
        ih fuel (Nat.le_of_succ_le_succ enough), List.flatMap_cons, List.filterMap_cons]
      cases cut.call <;> simp

theorem findPattern_first {front found : List Char} (first : Slices.First tokenRaw front found) :
    findPattern tokenRaw (front ++ found) = some (front, found) := by
  induction front with
  | nil =>
      cases found with
      | nil => exact absurd (List.prefix_nil.mp first.1) tokenRaw_ne_nil
      | cons char found => simp [findPattern, List.isPrefixOf_iff_prefix.mpr first.1]
  | cons char front ih =>
      have later : Slices.First tokenRaw front found :=
        ⟨first.1,
          fun earlier suffix => first.2 earlier (suffix.trans (List.suffix_cons char front))⟩
      have elsewhere : tokenRaw.isPrefixOf (char :: (front ++ found)) = false := by
        rw [Bool.eq_false_iff]
        exact fun here => first.2 (char :: front) (List.suffix_refl _) (List.cons_ne_nil _ _)
          (List.isPrefixOf_iff_prefix.mp here)
      simp [findPattern, elsewhere, ih later]

theorem findPattern_absent {value : List Char}
    (absent : ∀ rest, rest <:+ value → ¬tokenRaw <+: rest) :
    findPattern tokenRaw value = none := by
  induction value with
  | nil => rfl
  | cons char value ih =>
      have elsewhere : tokenRaw.isPrefixOf (char :: value) = false := by
        rw [Bool.eq_false_iff]
        exact fun here => absent _ (List.suffix_refl _) (List.isPrefixOf_iff_prefix.mp here)
      simp [findPattern, elsewhere,
        ih fun rest suffix => absent rest (suffix.trans (List.suffix_cons char value))]

/-- Over whole characters the expander puts out the same. -/
theorem expandTemplates_eq (scanned : Scanned value cuts tail) (fuel : Nat)
    (enough : cuts.length ≤ fuel) :
    expandTemplates config rawDomain domain graph fuel value =
      cuts.flatMap (Cut.rendered config rawDomain domain graph) ++ tail := by
  induction scanned generalizing fuel with
  | plain absent => cases fuel <;> simp [expandTemplates, findPattern_absent absent]
  | unclosed first unclosed =>
      cases fuel with
      | zero => rfl
      | succ fuel =>
          simp [expandTemplates, findPattern_first first, Text.splitOnce_absent unclosed]
  | @cut cut rest tail cuts first http closed more ih =>
      obtain ⟨fuel, rfl⟩ : ∃ less, fuel = less + 1 :=
        Nat.exists_eq_add_one_of_ne_zero (Nat.ne_of_gt (Nat.zero_lt_of_lt enough))
      have shape : cut.text ++ rest = (token cut.http ++ cut.inner) ++ '}' :: rest := by
        simp [Cut.text]
      have absent : '}' ∉ token cut.http ++ cut.inner :=
        fun member => (List.mem_append.mp member).elim (brace_not_mem_token cut.http) closed
      have split :
          Text.splitOnce '}' (cut.text ++ rest) = some (token cut.http ++ cut.inner, rest) := by
        rw [shape, Text.splitOnce_append absent]
      have inner : (token cut.http ++ cut.inner).drop
          (if cut.http then tokenHttp else tokenRaw).length = cut.inner := List.drop_left
      rw [List.append_assoc, expandTemplates, findPattern_first first]
      simp only [split, ← http, inner, ih fuel (Nat.le_of_succ_le_succ enough), List.flatMap_cons]
      cases named : Text.stripPrefix [':'] cut.inner with
      | none => simp [Cut.rendered, Cut.resolved, Cut.path, named]
      | some name => simp [Cut.rendered, Cut.resolved, Cut.path, named, Cut.zone, Cut.text]

end Expand

/-! ### The checker -/

theorem pathsPass_plain {value : List Char} (absent : ∀ rest, rest <:+ value → ¬tokenRaw <+: rest)
    (paths : List (List Char)) : pathsPass ⟨value, paths⟩ = some (.done paths) := by
  simp only [pathsPass, Slices.find_eq_none tokenRaw_ne_nil absent]

/-- What the checker goes on with after a token. -/
theorem after_token {front more : List Char} : Slices.after (front ++ (tokenRaw ++ more))
    (Slices.size front + Slices.size tokenRaw) = some more := by
  rw [← List.append_assoc, ← Slices.size_append, Slices.after_size]

theorem pathsPass_unclosed {front found : List Char} (first : Slices.First tokenRaw front found)
    (unclosed : '}' ∉ found) (paths : List (List Char)) :
    pathsPass ⟨front ++ found, paths⟩ = some (.done paths) := by
  obtain ⟨more, rfl⟩ := first.1
  have absent : '}' ∉ (Text.stripPrefix "_HTTP".toList more).getD more := by
    intro member
    refine unclosed (List.mem_append_right _ ?_)
    cases stripped : Text.stripPrefix "_HTTP".toList more with
    | none =>
        rw [stripped, Option.getD_none] at member
        exact member
    | some rest =>
        rw [Text.prefix_of_stripPrefix stripped]
        rw [stripped, Option.getD_some] at member
        exact List.mem_append_right _ member
  simp only [pathsPass, Slices.find_eq_some first, after_token, Option.bind_eq_bind,
    Option.bind_some, Slices.find_char_eq_none absent]

/-- One round of the checker takes the same template. -/
theorem pathsPass_cut {cut : Cut} {rest : List Char}
    (first : Slices.First tokenRaw cut.front (cut.text ++ rest))
    (http : cut.http = tokenHttp.isPrefixOf (cut.text ++ rest)) (closed : '}' ∉ cut.inner)
    (paths : List (List Char)) : pathsPass ⟨cut.front ++ cut.text ++ rest, paths⟩ =
      some (.again ⟨rest, paths ++ cut.path.toList⟩) := by
  have stripped : ∃ more, cut.text ++ rest = tokenRaw ++ more ∧
      (Text.stripPrefix "_HTTP".toList more).getD more = cut.inner ++ '}' :: rest := by
    cases kind : cut.http with
    | true =>
        refine ⟨"_HTTP".toList ++ (cut.inner ++ '}' :: rest), ?_, ?_⟩
        · simp [Cut.text, kind, token, tokenHttp_eq]
        · rw [Text.stripPrefix_append, Option.getD_some]
    | false =>
        have shape : cut.text ++ rest = tokenRaw ++ (cut.inner ++ '}' :: rest) := by
          simp [Cut.text, kind, token]
        refine ⟨cut.inner ++ '}' :: rest, shape, ?_⟩
        rw [Text.stripPrefix_eq_none, Option.getD_none]
        rintro ⟨more, same⟩
        have longer : tokenHttp <+: cut.text ++ rest := by
          rw [shape, ← same, tokenHttp_eq, ← List.append_assoc]
          exact List.prefix_append _ _
        rw [kind, List.isPrefixOf_iff_prefix.mpr longer] at http
        cases http
  obtain ⟨more, shape, stripped⟩ := stripped
  have upTo_inner : Slices.upTo (cut.inner ++ '}' :: rest) (Slices.size cut.inner) =
      some cut.inner := Slices.upTo_size _ _
  have left : Slices.after (cut.inner ++ '}' :: rest) (Slices.size cut.inner + 1) = some rest := by
    have shape : cut.inner ++ '}' :: rest = (cut.inner ++ ['}']) ++ rest := by simp
    rw [shape, ← size_brace, ← Slices.size_append, Slices.after_size]
  have found := Slices.find_eq_some first
  rw [shape] at found
  rw [List.append_assoc, shape]
  simp only [pathsPass, found, after_token, Option.bind_eq_bind, Option.bind_some, stripped,
    Slices.find_char closed, upTo_inner, left, Cut.path]

theorem paths_loop (scanned : Scanned value cuts tail) (fuel : Nat) (enough : cuts.length ≤ fuel)
    (paths : List (List Char)) :
    Slices.loop pathsPass (fuel + 1) ⟨value, paths⟩ =
      some (some (paths ++ cuts.filterMap Cut.path)) := by
  induction scanned generalizing fuel paths with
  | plain absent =>
      rw [Slices.loop_done (pathsPass_plain absent paths)]
      simp
  | unclosed first unclosed =>
      rw [Slices.loop_done (pathsPass_unclosed first unclosed paths)]
      simp
  | @cut cut rest tail cuts first http closed more ih =>
      obtain ⟨fuel, rfl⟩ : ∃ less, fuel = less + 1 :=
        Nat.exists_eq_add_one_of_ne_zero (Nat.ne_of_gt (Nat.zero_lt_of_lt enough))
      rw [Slices.loop_again (pathsPass_cut first http closed paths),
        ih fuel (Nat.le_of_succ_le_succ enough), List.filterMap_cons]
      cases cut.path <;> simp

/-! ## Both scanners -/

/-- Over any text both scanners come to their end without a slice that is none. -/
theorem scanners_end (config : NodeConfig) (rawDomain domain : String) (graph : Graph)
    (value : List Char) : ∃ cuts tail, Scanned value cuts tail ∧
      expand config rawDomain domain graph value =
        some (some (expandTemplates config rawDomain domain graph value.length value,
          cuts.filterMap Cut.call)) ∧
      scanPaths value = some (some (cuts.filterMap Cut.path)) := by
  obtain ⟨cuts, tail, scanned⟩ := exists_scanned value
  refine ⟨cuts, tail, scanned, ?_, ?_⟩
  · rw [expand, expand_loop config rawDomain domain graph scanned value.length scanned.length_le,
      expandTemplates_eq config rawDomain domain graph scanned value.length scanned.length_le]
    simp
  · rw [scanPaths, paths_loop scanned value.length scanned.length_le, List.nil_append]

theorem fqdnTemplatePaths_eq {value : String} {tail : List Char}
    (scanned : Scanned value.toList cuts tail) :
    fqdnTemplatePaths value = (cuts.filterMap Cut.path).map String.ofList := by
  rw [fqdnTemplatePaths, scanPaths, paths_loop scanned _ scanned.length_le]
  rfl

end Templates
end Fghj
