import Mathlib.Data.Finset.Card
import Mathlib.Logic.Relation

/-!
# Loops that repeat a pass

A loop takes pass after pass until one of them is done. It ends if every pass reached that goes on
shrinks a finite set, and it never ends from a state whose passes all lead to such states again.
-/

namespace Fghj

/-- What one pass of a loop leaves: a state to go on from, or the outcome. -/
inductive Pass (σ ω : Type) where
  | again (state : σ)
  | done (outcome : ω)

namespace Pass

variable {σ ω α : Type} (pass : σ → Pass σ ω)

/-- The outcome of the loop, if it takes no more passes than there is fuel. -/
def loop : Nat → σ → Option ω
  | 0, _ => none
  | fuel + 1, state =>
      match pass state with
      | .again next => loop fuel next
      | .done outcome => some outcome

/-- One pass that goes on. -/
def Continues (state next : σ) : Prop := pass state = .again next

/-- The states the loop takes a pass from. -/
def Reached (start state : σ) : Prop := Relation.ReflTransGen (Continues pass) start state

variable {pass}

theorem loop_again {state next : σ} (goesOn : pass state = .again next) (fuel : Nat) :
    loop pass (fuel + 1) state = loop pass fuel next := by
  rw [loop, goesOn]

theorem loop_done {state : σ} {outcome : ω} (ends : pass state = .done outcome) (fuel : Nat) :
    loop pass (fuel + 1) state = some outcome := by
  rw [loop, ends]

/-- More fuel makes no difference. -/
theorem loop_succ {fuel : Nat} {state : σ} {outcome : ω}
    (ended : loop pass fuel state = some outcome) :
    loop pass (fuel + 1) state = some outcome := by
  induction fuel generalizing state with
  | zero => cases ended
  | succ fuel ih =>
      cases result : pass state with
      | again next =>
          rw [loop_again result] at ended ⊢
          exact ih ended
      | done last =>
          rw [loop_done result] at ended ⊢
          exact ended

/-- What holds at the start and is kept by every pass that goes on holds in every state reached. -/
theorem Reached.invariant {start state : σ} (reached : Reached pass start state)
    (holds : σ → Prop) (initial : holds start)
    (kept : ∀ state next, Reached pass start state → pass state = .again next → holds state →
      holds next) : holds state := by
  induction reached with
  | refl => exact initial
  | tail before goesOn ih => exact kept _ _ before goesOn ih

/-- After the first pass the loop goes on from what it left. -/
theorem Reached.of_again {start next state : σ} (reached : Reached pass start state)
    (goesOn : pass start = .again next) : state = start ∨ Reached pass next state := by
  rcases Relation.ReflTransGen.cases_head reached with rfl | ⟨middle, first, rest⟩
  · exact .inl rfl
  · obtain rfl := Pass.again.inj (goesOn.symm.trans first)
    exact .inr rest

theorem Reached.of_done {start state : σ} {outcome : ω} (reached : Reached pass start state)
    (ends : pass start = .done outcome) : state = start := by
  rcases Relation.ReflTransGen.cases_head reached with rfl | ⟨middle, first, -⟩
  · rfl
  · cases ends.symm.trans first

variable (pass) in
/-- Whether the loop ends within the fuel and every state it takes a pass from passes a check. -/
def checkRun (check : σ → Bool) : Nat → σ → Bool
  | 0, _ => false
  | fuel + 1, state =>
      check state &&
        match pass state with
        | .again next => checkRun check fuel next
        | .done _ => true

theorem check_of_reached {check : σ → Bool} {fuel : Nat} {start state : σ}
    (checked : checkRun pass check fuel start) (reached : Reached pass start state) :
    check state := by
  induction fuel generalizing start with
  | zero => cases checked
  | succ fuel ih =>
      rw [checkRun, Bool.and_eq_true] at checked
      obtain ⟨here, later⟩ := checked
      cases result : pass start with
      | again next =>
          rw [result] at later
          rcases reached.of_again result with rfl | after
          · exact here
          · exact ih later after
      | done outcome =>
          rw [reached.of_done result]
          exact here

/-- A loop ends if every pass reached that goes on shrinks a finite set. -/
theorem loop_ends {start : σ} (left : σ → Finset α)
    (shrinks : ∀ state next, Reached pass start state → pass state = .again next →
      left next ⊂ left state) : ∃ fuel outcome, loop pass fuel start = some outcome := by
  -- the induction is on the size of the set left, over all states reached
  have ends : ∀ size state, Reached pass start state → (left state).card < size →
      ∃ fuel outcome, loop pass fuel state = some outcome := by
    intro size
    induction size with
    | zero =>
        intro state _ small
        exact absurd small (Nat.not_lt_zero _)
    | succ size ih =>
        intro state reached small
        cases result : pass state with
        | done outcome => exact ⟨1, outcome, loop_done result 0⟩
        | again next =>
            have smaller := Finset.card_lt_card (shrinks state next reached result)
            obtain ⟨fuel, outcome, found⟩ := ih next (reached.tail result) (by omega)
            exact ⟨fuel + 1, outcome, (loop_again result fuel).trans found⟩
  exact ends _ start .refl (Nat.lt_succ_self _)

/-- A loop ends within its fuel, with an outcome that answers for its start, if every pass that goes
on shrinks a size and what answers for the state it leaves answers for the state before. -/
theorem loop_total (holds : σ → Prop) (size : σ → Nat) (answers : σ → ω → Prop)
    (again : ∀ state next, holds state → pass state = .again next →
      holds next ∧ size next < size state ∧ ∀ outcome, answers next outcome → answers state outcome)
    (done : ∀ state outcome, holds state → pass state = .done outcome → answers state outcome)
    {fuel : Nat} {start : σ} (initial : holds start) (enough : size start < fuel) :
    ∃ outcome, loop pass fuel start = some outcome ∧ answers start outcome := by
  induction fuel generalizing start with
  | zero => exact absurd enough (Nat.not_lt_zero _)
  | succ fuel ih =>
      cases result : pass start with
      | done outcome => exact ⟨outcome, loop_done result fuel, done start outcome initial result⟩
      | again next =>
          obtain ⟨held, smaller, back⟩ := again start next initial result
          obtain ⟨outcome, found, answer⟩ := ih held (by omega)
          exact ⟨outcome, (loop_again result fuel).trans found, back outcome answer⟩

/-- Passes that go the same way through related states lead to outcomes that are told alike. -/
theorem loop_map {ρ υ : Type} {other : ρ → Pass ρ υ} (alike : σ → ρ → Prop) (told : ω → υ)
    (again : ∀ state twin next, alike state twin → pass state = .again next →
      ∃ follower, other twin = .again follower ∧ alike next follower)
    (done : ∀ state twin outcome, alike state twin → pass state = .done outcome →
      other twin = .done (told outcome))
    (fuel : Nat) {start : σ} {twin : ρ} (initial : alike start twin) :
    loop other fuel twin = (loop pass fuel start).map told := by
  induction fuel generalizing start twin with
  | zero => rfl
  | succ fuel ih =>
      cases result : pass start with
      | done outcome =>
          rw [loop_done result, loop_done (done start twin outcome initial result), Option.map_some]
      | again next =>
          obtain ⟨follower, same, held⟩ := again start twin next initial result
          rw [loop_again result, loop_again same, ih held]

/-- A loop never ends from a state whose passes all lead to such states again. -/
theorem loop_stuck (stuck : σ → Prop)
    (goesOn : ∀ state, stuck state → ∃ next, pass state = .again next ∧ stuck next) (fuel : Nat)
    {state : σ} (held : stuck state) : loop pass fuel state = none := by
  induction fuel generalizing state with
  | zero => rfl
  | succ fuel ih =>
      obtain ⟨next, result, still⟩ := goesOn state held
      rw [loop_again result, ih still]

end Pass
end Fghj
