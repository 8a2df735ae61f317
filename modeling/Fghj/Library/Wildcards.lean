import Fghj.Library.Loop
import Mathlib.Data.List.Infix

/-!
# Wildcard patterns

A pattern is a list of tokens. A wild token takes any run of symbols and every other token one
symbol that fits it. A matcher that remembers only its last wild token reads a token as a single
one wherever it fits, so its meaning is a narrower one.
-/

namespace Fghj
namespace Wildcards

variable {τ α : Type}

/-- The symbols can be cut so that every token takes its piece. -/
inductive Covers (wild : τ → Prop) (fits : τ → α → Prop) : List τ → List α → Prop
  | nil : Covers wild fits [] []
  | run {token : τ} {tokens : List τ} {symbols : List α} (taken : List α) (isWild : wild token)
      (rest : Covers wild fits tokens symbols) :
      Covers wild fits (token :: tokens) (taken ++ symbols)
  | one {token : τ} {symbol : α} {tokens : List τ} {symbols : List α} (single : ¬wild token)
      (fit : fits token symbol) (rest : Covers wild fits tokens symbols) :
      Covers wild fits (token :: tokens) (symbol :: symbols)

/-- The symbols can be cut so that a wild token that comes to stand before a symbol that fits it
takes that symbol alone. -/
inductive Narrow (wild : τ → Prop) (fits : τ → α → Prop) : List τ → List α → Prop
  | nil : Narrow wild fits [] []
  | run {token : τ} {tokens : List τ} {symbols : List α} (taken : List α) (isWild : wild token)
      (unfit : ∀ symbol ∈ (taken ++ symbols).head?, ¬fits token symbol)
      (rest : Narrow wild fits tokens symbols) :
      Narrow wild fits (token :: tokens) (taken ++ symbols)
  | one {token : τ} {symbol : α} {tokens : List τ} {symbols : List α}
      (fit : fits token symbol) (rest : Narrow wild fits tokens symbols) :
      Narrow wild fits (token :: tokens) (symbol :: symbols)

section

variable {wild : τ → Prop} {fits : τ → α → Prop} {token : τ} {symbol : α} {tokens : List τ}
  {symbols : List α}

theorem narrow_cons_of_fits (fit : fits token symbol) :
    Narrow wild fits (token :: tokens) (symbol :: symbols) ↔ Narrow wild fits tokens symbols := by
  refine ⟨fun narrow => ?_, .one fit⟩
  generalize whole : symbol :: symbols = name at narrow
  cases narrow with
  | run taken _ unfit _ => exact absurd fit (unfit symbol (by rw [← whole]; rfl))
  | one _ rest =>
      cases whole
      exact rest

theorem narrow_cons_of_unfit (isWild : wild token) (unfit : ¬fits token symbol) :
    Narrow wild fits (token :: tokens) (symbol :: symbols) ↔
      ∃ later, later <:+ symbol :: symbols ∧ Narrow wild fits tokens later := by
  constructor
  · intro narrow
    generalize whole : symbol :: symbols = name at narrow
    cases narrow with
    | run taken _ _ rest => exact ⟨_, List.suffix_append taken _, rest⟩
    | one fit _ =>
        cases whole
        exact absurd fit unfit
  · rintro ⟨later, ⟨taken, whole⟩, rest⟩
    rw [← whole]
    refine .run taken isWild (fun first head => ?_) rest
    rw [whole] at head
    cases head
    exact unfit

theorem not_narrow_nil : ¬Narrow wild fits [] (symbol :: symbols) := by
  intro narrow
  cases narrow

theorem not_narrow_single (single : ¬wild token) (unfit : ¬fits token symbol) :
    ¬Narrow wild fits (token :: tokens) (symbol :: symbols) := by
  intro narrow
  generalize symbol :: symbols = name, whole : symbol :: symbols = name at narrow
  cases narrow with
  | run _ isWild _ _ => exact single isWild
  | one fit _ =>
      cases whole
      exact unfit fit

theorem narrow_nil_iff : Narrow wild fits tokens [] ↔ ∀ token ∈ tokens, wild token := by
  induction tokens with
  | nil => exact ⟨fun _ _ member => absurd member List.not_mem_nil, fun _ => .nil⟩
  | cons token tokens ih =>
      rw [List.forall_mem_cons, ← ih]
      constructor
      · intro narrow
        generalize empty : ([] : List α) = name at narrow
        cases narrow with
        | run taken isWild _ rest =>
            obtain ⟨rfl, rfl⟩ := List.append_eq_nil_iff.mp empty.symm
            exact ⟨isWild, rest⟩
        | one _ _ => cases empty
      · rintro ⟨isWild, rest⟩
        exact .run [] isWild (fun _ first => by cases first) rest

/-- Tokens that took a symbol each take no less from a place further on. -/
theorem Narrow.suffix_of_taken {consumed rest : List τ} {taken left later : List α}
    (each : List.Forall₂ fits consumed taken) (within : later <:+ taken ++ left)
    (narrow : Narrow wild fits (consumed ++ rest) later) :
    ∃ after, after <:+ left ∧ Narrow wild fits rest after := by
  induction each generalizing later with
  | nil => exact ⟨later, within, narrow⟩
  | @cons token symbol consumed taken fit _ ih =>
      rcases List.suffix_cons_iff.mp within with rfl | further
      · exact ih (List.suffix_refl _) ((narrow_cons_of_fits fit).mp narrow)
      · generalize all : (token :: consumed) ++ rest = tokens at narrow
        cases narrow with
        | nil => cases all
        | run gone _ _ narrow =>
            cases all
            exact ih ((List.suffix_append gone _).trans further) narrow
        | one _ narrow =>
            cases all
            exact ih ((List.suffix_cons _ _).trans further) narrow

end

/-! ## A matcher that remembers its last wild token -/

/-- The tokens and symbols left, and what they were behind the last wild token where that took as
much as it takes now. -/
structure Search (τ α : Type) where
  tokens : List τ
  symbols : List α
  star : Option (List τ × List α)

namespace Search

/-- The last wild token takes one symbol more. -/
def retry : Option (List τ × List α) → Pass (Search τ α) Bool
  | some (tokens, symbols) => .again ⟨tokens, symbols.tail, some (tokens, symbols.tail)⟩
  | none => .done false

variable {wild : τ → Prop} {fits : τ → α → Prop}

/-- What was read since the last wild token was read symbol by symbol. -/
def Sound (fits : τ → α → Prop) (search : Search τ α) : Prop :=
  ∀ tokens symbols, search.star = some (tokens, symbols) → ∃ consumed taken,
    tokens = consumed ++ search.tokens ∧ symbols = taken ++ search.symbols ∧
      List.Forall₂ fits consumed taken

/-- The search can still succeed, where it stands or with the last wild token taking more. -/
def Wins (wild : τ → Prop) (fits : τ → α → Prop) (search : Search τ α) : Prop :=
  Narrow wild fits search.tokens search.symbols ∨
    ∃ tokens symbols later, search.star = some (tokens, symbols) ∧ later <:+ symbols.tail ∧
      Narrow wild fits tokens later

/-- The symbols behind the last wild token, or all that are left. -/
def span (search : Search τ α) : List α := (search.star.map Prod.snd).getD search.symbols

/-- A search whose tokens, here and behind the last wild one, are at most `bound`. -/
structure Held (fits : τ → α → Prop) (bound : Nat) (search : Search τ α) : Prop where
  sound : Sound fits search
  short : search.tokens.length ≤ bound
  starShort : ∀ tokens symbols, search.star = some (tokens, symbols) → tokens.length ≤ bound

/-- Goes down with every pass. -/
def size (bound : Nat) (search : Search τ α) : Nat :=
  search.span.length * (bound + 1) + search.tokens.length

variable {search : Search τ α} {bound : Nat}

theorem Sound.suffix (sound : Sound fits search) : search.symbols <:+ search.span := by
  unfold span
  cases star : search.star with
  | none => exact List.suffix_refl _
  | some behind =>
      obtain ⟨consumed, taken, -, same, -⟩ := sound behind.1 behind.2 star
      exact ⟨taken, same.symm⟩

/-- A second wild token makes up for what the one before it could still take. -/
theorem Sound.later (sound : Sound fits search) {tokens : List τ} {symbols later : List α}
    (star : search.star = some (tokens, symbols)) (within : later <:+ symbols.tail)
    (narrow : Narrow wild fits tokens later) :
    ∃ after, after <:+ search.symbols ∧ Narrow wild fits search.tokens after := by
  obtain ⟨consumed, taken, rfl, rfl, each⟩ := sound tokens symbols star
  exact narrow.suffix_of_taken each (within.trans (List.tail_suffix _))

theorem wins_done (sound : Sound fits search) (ended : search.symbols = []) :
    Wins wild fits search ↔ ∀ token ∈ search.tokens, wild token := by
  rw [← @narrow_nil_iff _ _ _ fits, Wins, ended]
  refine ⟨?_, .inl⟩
  rintro (narrow | ⟨tokens, symbols, later, star, within, narrow⟩)
  · exact narrow
  · obtain ⟨after, none, rest⟩ := sound.later star within narrow
    rw [ended] at none
    rwa [List.suffix_nil.mp none] at rest

section

variable {token : τ} {symbol : α} {tokens : List τ} {symbols : List α}
  {star : Option (List τ × List α)}

theorem wins_one (fit : fits token symbol) :
    Wins wild fits ⟨token :: tokens, symbol :: symbols, star⟩ ↔
      Wins wild fits ⟨tokens, symbols, star⟩ := by
  rw [Wins, Wins, narrow_cons_of_fits fit]

theorem wins_run (sound : Sound fits ⟨token :: tokens, symbol :: symbols, star⟩)
    (isWild : wild token) (unfit : ¬fits token symbol) :
    Wins wild fits ⟨token :: tokens, symbol :: symbols, star⟩ ↔
      Wins wild fits ⟨tokens, symbol :: symbols, some (tokens, symbol :: symbols)⟩ := by
  have here : Wins wild fits ⟨tokens, symbol :: symbols, some (tokens, symbol :: symbols)⟩ ↔
      Narrow wild fits (token :: tokens) (symbol :: symbols) := by
    rw [narrow_cons_of_unfit isWild unfit]
    constructor
    · rintro (narrow | ⟨_, _, later, ⟨⟩, within, narrow⟩)
      · exact ⟨_, List.suffix_refl _, narrow⟩
      · exact ⟨later, within.trans (List.tail_suffix _), narrow⟩
    · rintro ⟨later, within, narrow⟩
      rcases List.suffix_cons_iff.mp within with rfl | further
      · exact .inl narrow
      · exact .inr ⟨_, _, later, rfl, further, narrow⟩
  rw [here]
  refine ⟨?_, .inl⟩
  rintro (narrow | ⟨_, _, later, marked, within, narrow⟩)
  · exact narrow
  · obtain ⟨after, suffix, rest⟩ := sound.later marked within narrow
    refine (narrow_cons_of_unfit isWild unfit).mpr ?_
    -- the token itself may take a symbol or a run at the later place
    generalize all : token :: tokens = pattern at rest
    cases rest with
    | nil => cases all
    | run gone _ _ rest =>
        cases all
        exact ⟨_, (List.suffix_append gone _).trans suffix, rest⟩
    | one _ rest =>
        cases all
        exact ⟨_, (List.suffix_cons _ _).trans suffix, rest⟩

theorem wins_retry {behind : List τ} {first : α} {span : List α}
    (fails : ¬Narrow wild fits tokens symbols) :
    Wins wild fits ⟨tokens, symbols, some (behind, first :: span)⟩ ↔
      Wins wild fits ⟨behind, span, some (behind, span)⟩ := by
  constructor
  · rintro (narrow | ⟨_, _, later, ⟨⟩, within, narrow⟩)
    · exact absurd narrow fails
    · cases span with
      | nil =>
          obtain rfl := List.suffix_nil.mp within
          exact .inl narrow
      | cons next span =>
          rcases List.suffix_cons_iff.mp within with rfl | further
          · exact .inl narrow
          · exact .inr ⟨_, _, later, rfl, further, narrow⟩
  · rintro (narrow | ⟨_, _, later, ⟨⟩, within, narrow⟩)
    · exact .inr ⟨_, _, span, rfl, List.suffix_refl _, narrow⟩
    · exact .inr ⟨_, _, later, rfl, within.trans (List.tail_suffix _), narrow⟩

/-- A search that cannot go on where it stands goes on further behind the last wild token. -/
theorem retry_again {next : Search τ α} (held : Held fits bound ⟨tokens, symbol :: symbols, star⟩)
    (fails : ¬Narrow wild fits tokens (symbol :: symbols))
    (goesOn : retry star = .again next) :
    Held fits bound next ∧ size bound next < size bound ⟨tokens, symbol :: symbols, star⟩ ∧
      (Wins wild fits next ↔ Wins wild fits ⟨tokens, symbol :: symbols, star⟩) := by
  cases star with
  | none => cases goesOn
  | some behind =>
      obtain ⟨after, span⟩ := behind
      obtain ⟨consumed, taken, -, same, -⟩ := held.sound after span rfl
      cases span with
      | nil => cases (List.append_eq_nil_iff.mp same.symm).2
      | cons first span =>
          cases goesOn
          have short := held.starShort after _ rfl
          refine ⟨⟨?_, short, ?_⟩, ?_, (wins_retry fails).symm⟩
          · rintro _ _ ⟨⟩
            exact ⟨[], [], rfl, rfl, .nil⟩
          · rintro _ _ ⟨⟩
            exact short
          · simp only [size, Search.span, Option.map_some, Option.getD_some, List.tail_cons,
              List.length_cons, Nat.add_mul]
            omega

end

section

variable (wild fits) [DecidablePred wild] [∀ token symbol, Decidable (fits token symbol)]

def pass (search : Search τ α) : Pass (Search τ α) Bool :=
  match search.symbols, search.tokens with
  | [], tokens => .done (tokens.all fun token => wild token)
  | _ :: _, [] => retry search.star
  | symbol :: symbols, token :: tokens =>
      if fits token symbol then .again ⟨tokens, symbols, search.star⟩
      else if wild token then
        .again ⟨tokens, symbol :: symbols, some (tokens, symbol :: symbols)⟩
      else retry search.star

variable {wild fits}

theorem pass_cons (token : τ) (tokens : List τ) (symbol : α) (symbols : List α)
    (star : Option (List τ × List α)) :
    pass wild fits ⟨token :: tokens, symbol :: symbols, star⟩ =
      if fits token symbol then .again ⟨tokens, symbols, star⟩
      else if wild token then
        .again ⟨tokens, symbol :: symbols, some (tokens, symbol :: symbols)⟩
      else retry star :=
  rfl

theorem pass_again {next : Search τ α} (held : Held fits bound search)
    (goesOn : pass wild fits search = .again next) :
    Held fits bound next ∧ size bound next < size bound search ∧
      (Wins wild fits next ↔ Wins wild fits search) := by
  obtain ⟨tokens, symbols, star⟩ := search
  cases symbols with
  | nil => cases goesOn
  | cons symbol symbols =>
      cases tokens with
      | nil => exact retry_again held not_narrow_nil goesOn
      | cons token tokens =>
          rw [pass_cons] at goesOn
          by_cases fit : fits token symbol
          · rw [if_pos fit] at goesOn
            cases goesOn
            refine ⟨⟨fun after span marked => ?_, ?_, held.starShort⟩, ?_, (wins_one fit).symm⟩
            · obtain ⟨consumed, taken, rfl, rfl, each⟩ := held.sound after span marked
              refine ⟨consumed ++ [token], taken ++ [symbol], by simp, by simp, ?_⟩
              exact List.rel_append each (.cons fit .nil)
            · exact (Nat.le_succ _).trans held.short
            · simp only [size, List.length_cons]
              have less : (span ⟨tokens, symbols, star⟩).length ≤
                  (span ⟨token :: tokens, symbol :: symbols, star⟩).length := by
                cases star <;> simp [span]
              have := Nat.mul_le_mul_right (bound + 1) less
              omega
          · rw [if_neg fit] at goesOn
            by_cases isWild : wild token
            · rw [if_pos isWild] at goesOn
              cases goesOn
              have shorter : tokens.length ≤ bound := (Nat.le_succ _).trans held.short
              refine ⟨⟨?_, shorter, ?_⟩, ?_, (wins_run held.sound isWild fit).symm⟩
              · rintro _ _ ⟨⟩
                exact ⟨[], [], rfl, rfl, .nil⟩
              · rintro _ _ ⟨⟩
                exact shorter
              · have less := Nat.mul_le_mul_right (bound + 1) held.sound.suffix.length_le
                simp only [size, List.length_cons] at less ⊢
                exact Nat.lt_of_lt_of_le (by simp [span]) (Nat.add_le_add_right less _)
            · rw [if_neg isWild] at goesOn
              exact retry_again held (not_narrow_single isWild fit) goesOn

theorem pass_done {outcome : Bool} (held : Held fits bound search)
    (ends : pass wild fits search = .done outcome) : outcome ↔ Wins wild fits search := by
  have retried {tokens : List τ} {symbols : List α} {star : Option (List τ × List α)}
      (fails : ¬Narrow wild fits tokens symbols)
      (ends : retry (α := α) star = .done outcome) :
      outcome ↔ Wins wild fits ⟨tokens, symbols, star⟩ := by
    cases star with
    | some behind => cases ends
    | none =>
        cases ends
        refine ⟨fun wrong => absurd wrong Bool.false_ne_true, ?_⟩
        rintro (narrow | ⟨_, _, _, ⟨⟩, _⟩)
        exact absurd narrow fails
  obtain ⟨tokens, symbols, star⟩ := search
  cases symbols with
  | nil =>
      cases ends
      rw [wins_done held.sound rfl]
      simp
  | cons symbol symbols =>
      cases tokens with
      | nil => exact retried not_narrow_nil ends
      | cons token tokens =>
          rw [pass_cons] at ends
          by_cases fit : fits token symbol
          · rw [if_pos fit] at ends
            cases ends
          · rw [if_neg fit] at ends
            by_cases isWild : wild token
            · rw [if_pos isWild] at ends
              cases ends
            · rw [if_neg isWild] at ends
              exact retried (not_narrow_single isWild fit) ends

/-- The matcher ends, and decides the narrower meaning. -/
theorem loop_narrow (tokens : List τ) (symbols : List α) :
    ∃ outcome, Pass.loop (pass wild fits) ((symbols.length + 1) * (tokens.length + 1))
        ⟨tokens, symbols, none⟩ = some outcome ∧ (outcome ↔ Narrow wild fits tokens symbols) := by
  have held : Held fits tokens.length ⟨tokens, symbols, none⟩ := by
    refine ⟨?_, le_refl _, ?_⟩
    · rintro _ _ ⟨⟩
    · rintro _ _ ⟨⟩
  have enough : size tokens.length ⟨tokens, symbols, none⟩ <
      (symbols.length + 1) * (tokens.length + 1) := by
    simp [size, span, Nat.add_mul]
  obtain ⟨outcome, found, answer⟩ := Pass.loop_total (Held fits tokens.length) (size tokens.length)
    (fun search outcome => outcome = true ↔ Wins wild fits search)
    (fun search next held goesOn => by
      obtain ⟨after, less, same⟩ := pass_again held goesOn
      exact ⟨after, less, fun outcome answer => answer.trans same⟩)
    (fun search outcome held ends => pass_done held ends) held enough
  refine ⟨outcome, found, answer.trans ⟨?_, .inl⟩⟩
  rintro (narrow | ⟨_, _, _, ⟨⟩, _⟩)
  exact narrow

end

end Search
end Wildcards
end Fghj
