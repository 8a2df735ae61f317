import Mathlib.Tactic.Common

/-!
# Runs of a deterministic machine

A machine takes one event at a time. Invariants are proved one event at a time and carried over
every run, either unconditionally or along runs whose events all satisfy a side condition read off
the state before the event.
-/

namespace Fghj

namespace Execution

variable {σ α : Type} (step : σ → α → σ)

/-- The state reached by a finite sequence of events. -/
def run : σ → List α → σ
  | state, [] => state
  | state, event :: events => run (step state event) events

/-- Every event of the sequence meets the condition in the state it is taken in. -/
def Along (condition : σ → α → Prop) : σ → List α → Prop
  | _, [] => True
  | state, event :: events =>
      condition state event ∧ Along condition (step state event) events

@[simp]
theorem run_nil (state : σ) : run step state [] = state := rfl

@[simp]
theorem run_cons (state : σ) (event : α) (events : List α) :
    run step state (event :: events) = run step (step state event) events := rfl

theorem run_append (state : σ) (front back : List α) :
    run step state (front ++ back) = run step (run step state front) back := by
  induction front generalizing state with
  | nil => rfl
  | cons event front ih => exact ih (step state event)

@[simp]
theorem along_nil (condition : σ → α → Prop) (state : σ) : Along step condition state [] := trivial

@[simp]
theorem along_cons (condition : σ → α → Prop) (state : σ) (event : α) (events : List α) :
    Along step condition state (event :: events) ↔
      condition state event ∧ Along step condition (step state event) events :=
  Iff.rfl

instance decidableAlong (condition : σ → α → Prop)
    [∀ state event, Decidable (condition state event)] :
    ∀ state events, Decidable (Along step condition state events)
  | _, [] => inferInstanceAs (Decidable True)
  | state, event :: events =>
      have := decidableAlong condition (step state event) events
      inferInstanceAs (Decidable (_ ∧ _))

theorem along_append (condition : σ → α → Prop) (state : σ) (front back : List α) :
    Along step condition state (front ++ back) ↔
      Along step condition state front ∧
        Along step condition (run step state front) back := by
  induction front generalizing state with
  | nil => simp
  | cons event front ih => simp [ih, and_assoc]

/-- A run meets the condition if and only if each event does in the state the front leads to. -/
theorem along_iff (condition : σ → α → Prop) (state : σ) (events : List α) :
    Along step condition state events ↔ ∀ front event back, events = front ++ event :: back →
      condition (run step state front) event := by
  constructor
  · rintro along front event back rfl
    exact ((along_append step condition state front (event :: back)).mp along).2.1
  · intro each
    induction events generalizing state with
    | nil => trivial
    | cons event events ih =>
        refine ⟨each [] event events rfl, ih (step state event) fun front next back split => ?_⟩
        exact each (event :: front) next back (congrArg (event :: ·) split)

/-- An invariant kept by every event that meets the condition holds after every such run. -/
theorem run_invariant (condition : σ → α → Prop) (invariant : σ → Prop)
    (preserved : ∀ state event, invariant state → condition state event →
      invariant (step state event))
    {state : σ} (initial : invariant state) {events : List α}
    (along : Along step condition state events) : invariant (run step state events) := by
  induction events generalizing state with
  | nil => exact initial
  | cons event events ih =>
      exact ih (preserved state event initial along.1) along.2

/-- Where an event keeps an invariant exactly if it meets a condition, the invariant holds in every
state of a run exactly if every event meets it. -/
theorem invariant_throughout_iff {condition : σ → α → Prop} (invariant : σ → Prop)
    (exact_step : ∀ state event, invariant state →
      (invariant (step state event) ↔ condition state event))
    {state : σ} (initial : invariant state) (events : List α) :
    (∀ front back, events = front ++ back → invariant (run step state front)) ↔
      Along step condition state events := by
  induction events generalizing state with
  | nil =>
      refine iff_of_true (fun front back split => ?_) trivial
      rw [(List.append_eq_nil_iff.mp split.symm).1]
      exact initial
  | cons event events ih =>
      constructor
      · intro throughout
        have next : invariant (step state event) := throughout [event] events rfl
        refine ⟨(exact_step state event initial).mp next, (ih next).mp fun front back split => ?_⟩
        exact throughout (event :: front) back (congrArg (event :: ·) split)
      · rintro ⟨here, rest⟩ front back split
        have next := (exact_step state event initial).mpr here
        cases front with
        | nil => exact initial
        | cons first front =>
            obtain ⟨rfl, remaining⟩ := List.cons.inj split
            exact (ih next).mpr rest front back remaining

/-- An invariant kept by every event holds after every run. -/
theorem run_always (invariant : σ → Prop)
    (preserved : ∀ state event, invariant state → invariant (step state event))
    {state : σ} (initial : invariant state) (events : List α) :
    invariant (run step state events) := by
  induction events generalizing state with
  | nil => exact initial
  | cons event events ih => exact ih (preserved state event initial)

/-- What every event says of itself and every later event leaves standing holds of every event of a
run. -/
theorem foldl_establishes (fact : σ → α → Prop)
    (established : ∀ state event, fact (step state event) event)
    (kept : ∀ state event other, fact state other → fact (step state event) other)
    (state : σ) (events : List α) : ∀ event ∈ events, fact (events.foldl step state) event := by
  have stays : ∀ (events : List α) state other, fact state other →
      fact (events.foldl step state) other := by
    intro events
    induction events with
    | nil => exact fun _ _ holds => holds
    | cons event events ih => exact fun state other holds => ih _ _ (kept state event other holds)
  induction events generalizing state with
  | nil => intro event listed; cases listed
  | cons event events ih =>
      intro other listed
      rcases List.mem_cons.mp listed with rfl | later
      · exact stays events _ _ (established state other)
      · exact ih (step state event) other later

/-- A machine whose steps may fail goes through where an invariant of the state rules failure
out. -/
theorem foldlM_eq_some_run {partialStep : σ → α → Option σ} (invariant : σ → Prop)
    (possible : α → Prop)
    (preserved : ∀ state event, invariant state → possible event → invariant (step state event))
    (defined : ∀ state event, invariant state → possible event →
      partialStep state event = some (step state event))
    {state : σ} (initial : invariant state) {events : List α}
    (all : ∀ event ∈ events, possible event) :
    events.foldlM partialStep state = some (run step state events) := by
  induction events generalizing state with
  | nil => rfl
  | cons event events ih =>
      have here := all event List.mem_cons_self
      rw [List.foldlM_cons, defined state event initial here]
      exact ih (preserved state event initial here) fun other later =>
        all other (List.mem_cons_of_mem _ later)

end Execution
end Fghj
