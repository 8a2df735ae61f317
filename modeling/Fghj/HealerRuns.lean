import Fghj.Healer
import Mathlib.Algebra.Group.Nat.Defs

/-!
# The healer over time

One pick at a time, at later and later instants, for whatever workspace and environment: the
backoff of a node is known from the log. It is there exactly if the node was restarted and nothing
has reset it since, it counts the restarts, and it holds the instant of the last one and whether the
node was given up.
-/

namespace Fghj

open Std Reducer

namespace Healer

/-! ## One pick -/

/-- The backoff of one node. -/
def entry (healer : Healer) (workspace nodeId : String) : Option Tries :=
  ((healer.tries[workspace]?).getD ∅)[nodeId]?

/-- A create or some container's action is in flight. -/
def InFlight (env : EnvState) : Prop :=
  env.pendingCreate ≠ none ∨ ∃ (nodeId : String) (container : ContainerInfo),
    env.containers[nodeId]? = some container ∧ container.pendingAction ≠ none

/-- The node is wanted up and has not been up for long since the attempt. -/
def goesOn (env : EnvState) (nodeId : String) (last now : Nat) : Bool :=
  (env.containers[nodeId]?).any fun container => container.desired.running &&
    !(container.condition == .running && decide (stable ≤ now - last))

/-- Its backoff does not hold the node back. -/
def ready (held : Option Tries) (now : Nat) : Bool :=
  held.all fun held => !held.givenUp && held.due now

/-- Down, due and not given up. -/
def Eligible (healer : Healer) (workspace : String) (env : EnvState) (now : Nat) (nodeId : String) :
    Prop :=
  (∃ container, env.containers[nodeId]? = some container ∧ isDown container.condition) ∧
    ready (healer.entry workspace nodeId) now

/-- The node that was tried longest ago of those that are eligible. -/
structure Chosen (healer : Healer) (workspace : String) (env : EnvState) (now : Nat)
    (nodeId : String) (condition : NodeCondition) : Prop where
  eligible : healer.Eligible workspace env now nodeId
  condition : (env.containers[nodeId]?).map ContainerInfo.condition = some condition
  first : ∀ other, healer.Eligible workspace env now other →
    before ((healer.entry workspace other).map Tries.last)
      ((healer.entry workspace nodeId).map Tries.last) = false

/-- What the entries are once one of a workspace was set. -/
def Sets (healer : Healer) (workspace : String) (env : EnvState) (now : Nat)
    (set : String → Option Tries → Option Tries) (next : Healer) : Prop :=
  ∀ other nodeId, next.entry other nodeId =
    if other = workspace then
      set nodeId ((healer.entry workspace nodeId).filter fun held =>
        goesOn env nodeId held.last now)
    else healer.entry other nodeId

/-- What one pick answers and writes down. -/
inductive Outcome (healer : Healer) (workspace : String) (env : EnvState) (now : Nat) :
    Option Heal → Healer → Prop where
  | busy (taken : InFlight env) : Outcome healer workspace env now none healer
  | quiet {next : Healer} (idle : ¬InFlight env)
      (sets : healer.Sets workspace env now (fun _ kept => kept) next) :
      Outcome healer workspace env now none next
  | restart {next : Healer} {nodeId : String} {condition : NodeCondition} {count : Nat}
      (idle : ¬InFlight env) (chosen : healer.Chosen workspace env now nodeId condition)
      (counted : count = ((healer.entry workspace nodeId).map Tries.count).getD 0)
      (few : count < maxAttempts)
      (sets : healer.Sets workspace env now (fun other kept =>
        if other = nodeId then some { count := count + 1, last := now, givenUp := false }
        else kept) next) :
      Outcome healer workspace env now (some (.restart nodeId condition (count + 1))) next
  | giveUp {next : Healer} {nodeId : String} {condition : NodeCondition} {held : Tries}
      (idle : ¬InFlight env) (chosen : healer.Chosen workspace env now nodeId condition)
      (found : healer.entry workspace nodeId = some held) (many : maxAttempts ≤ held.count)
      (sets : healer.Sets workspace env now (fun other kept =>
        if other = nodeId then some { held with givenUp := true } else kept) next) :
      Outcome healer workspace env now (some (.giveUp nodeId)) next

section Pick

variable {healer : Healer} {workspace nodeId : String} {env : EnvState} {now : Nat}

theorem inFlight_iff (env : EnvState) : InFlight env ↔
    (env.pendingCreate.isSome ||
      (OrderedMap.listed env.containers).any fun container => container.pendingAction.isSome) := by
  simp only [InFlight, Bool.or_eq_true, Option.isSome_iff_ne_none, List.any_eq_true,
    OrderedMap.mem_listed]
  grind

theorem before_false_trans {first second third : Option Nat} (one : before first second = false)
    (two : before second third = false) : before first third = false := by
  cases first <;> cases second <;> cases third <;> simp_all [before]
  omega

theorem before_asymm {first second : Option Nat} (less : before first second = true) :
    before second first = false := by
  cases first <;> cases second <;> simp_all [before]
  omega

/-- None of the candidates was tried before the one that is picked. -/
theorem longestAgo_first {tries : OrderedMap String Tries}
    {candidates : List (String × NodeCondition)} {found : String × NodeCondition}
    (picked : longestAgo tries candidates = some found) :
    ∀ candidate ∈ candidates, before ((tries[candidate.1]?).map Tries.last)
      ((tries[found.1]?).map Tries.last) = false := by
  cases candidates with
  | nil => cases picked
  | cons first rest =>
      obtain rfl := Option.some.inj picked
      clear picked
      induction rest using List.reverseRecOn with
      | nil =>
          intro candidate member
          rw [List.mem_singleton.mp member, List.foldl_nil]
          cases tries[first.1]? <;> simp [before]
      | append_singleton rest next ih =>
          intro candidate member
          rw [List.foldl_append, List.foldl_cons, List.foldl_nil]
          rw [← List.cons_append, List.mem_append, List.mem_singleton] at member
          split
          · rename_i less
            rcases member with earlier | rfl
            · exact before_false_trans (ih candidate earlier) (before_asymm less)
            · cases tries[candidate.1]? <;> simp [before]
          · rename_i notLess
            rcases member with earlier | rfl
            · exact ih candidate earlier
            · exact Bool.eq_false_iff.mpr notLess

theorem wanted_of_isDown {container : ContainerInfo} (down : isDown container.condition) :
    container.desired.running = true ∧ container.condition ≠ .running := by
  constructor
  · by_contra unwanted
    obtain ⟨crashed, interrupted⟩ :=
      ContainerInfo.condition_of_not_running (Bool.eq_false_iff.mpr unwanted)
    simp [isDown, crashed, interrupted] at down
  · intro running
    rw [running] at down
    cases down

theorem goesOn_of_isDown {container : ContainerInfo}
    (found : env.containers[nodeId]? = some container) (down : isDown container.condition)
    (last now : Nat) : goesOn env nodeId last now = true := by
  obtain ⟨wanted, stopped⟩ := wanted_of_isDown down
  simp [goesOn, found, wanted, stopped]

theorem get_retained (tries : OrderedMap String Tries) (nodeId : String) :
    (retained tries env now)[nodeId]? =
      (tries[nodeId]?).filter fun held => goesOn env nodeId held.last now := by
  rw [retained, ExtTreeMap.getElem?_filter']
  rfl

/-- The backoff of a node that is down is retained. -/
theorem retained_of_isDown {container : ContainerInfo}
    (found : env.containers[nodeId]? = some container) (down : isDown container.condition)
    (tries : OrderedMap String Tries) : (retained tries env now)[nodeId]? = tries[nodeId]? := by
  rw [get_retained]
  cases tries[nodeId]? with
  | none => rfl
  | some held => rw [Option.filter_some, if_pos (goesOn_of_isDown found down held.last now)]

theorem mem_candidates_iff (keyed : Converge.keyed env) (condition : NodeCondition) :
    (nodeId, condition) ∈ candidates (retained ((healer.tries[workspace]?).getD ∅) env now) env
        now ↔
      healer.Eligible workspace env now nodeId ∧
        (env.containers[nodeId]?).map ContainerInfo.condition = some condition := by
  have ids := (Converge.keyed_iff env).mp keyed
  simp only [candidates, List.mem_filter, List.mem_map, OrderedMap.mem_listed, Prod.mk.injEq,
    Bool.and_eq_true]
  constructor
  · rintro ⟨⟨container, ⟨key, found⟩, rfl, rfl⟩, down, held⟩
    rw [ids key container found, retained_of_isDown found down] at held
    rw [ids key container found]
    refine ⟨⟨⟨container, found, down⟩, held⟩, ?_⟩
    rw [found, Option.map_some]
  · rintro ⟨⟨⟨container, found, down⟩, held⟩, same⟩
    rw [found, Option.map_some, Option.some.injEq] at same
    subst same
    refine ⟨⟨container, ⟨nodeId, found⟩, ids nodeId container found, rfl⟩, down, ?_⟩
    rw [retained_of_isDown found down]
    exact held

theorem entry_insert (healer : Healer) (workspace : String) (tries : OrderedMap String Tries)
    (other nodeId : String) :
    entry { tries := healer.tries.insert workspace tries } other nodeId =
      if other = workspace then tries[nodeId]? else healer.entry other nodeId := by
  by_cases same : other = workspace
  · subst same
    simp [entry]
  · simp [entry, same, Ne.symm same]

theorem sets_insert (healer : Healer) (workspace nodeId : String) (held : Tries) :
    healer.Sets workspace env now (fun other kept => if other = nodeId then some held else kept)
      { tries := healer.tries.insert workspace
          ((retained ((healer.tries[workspace]?).getD ∅) env now).insert nodeId held) } := by
  intro place other
  rw [entry_insert]
  by_cases same : other = nodeId
  · subst same
    simp
  · simp [same, Ne.symm same, get_retained, entry]

theorem chosen_of_longestAgo (keyed : Converge.keyed env) {condition : NodeCondition}
    (picked : longestAgo (retained ((healer.tries[workspace]?).getD ∅) env now)
      (candidates (retained ((healer.tries[workspace]?).getD ∅) env now) env now) =
        some (nodeId, condition)) :
    healer.Chosen workspace env now nodeId condition := by
  obtain ⟨eligible, same⟩ := (mem_candidates_iff keyed condition).mp (mem_of_longestAgo picked)
  refine ⟨eligible, same, fun other rival => ?_⟩
  obtain ⟨⟨container, found, down⟩, -⟩ := eligible
  obtain ⟨rivalContainer, rivalFound, rivalDown⟩ := rival.1
  have listed := (mem_candidates_iff keyed rivalContainer.condition).mpr
    ⟨rival, by rw [rivalFound, Option.map_some]⟩
  have first := longestAgo_first picked _ listed
  rwa [retained_of_isDown found down, retained_of_isDown rivalFound rivalDown] at first

theorem pick_outcome (healer : Healer) (workspace : String) (now : Nat)
    (keyed : Converge.keyed env) :
    Outcome healer workspace env now (healer.pick workspace env now).1
      (healer.pick workspace env now).2 := by
  rw [pick]
  split
  · rename_i taken
    exact .busy ((inFlight_iff env).mpr taken)
  · rename_i free
    have idle : ¬InFlight env := fun taken => free ((inFlight_iff env).mp taken)
    dsimp only
    split
    · refine .quiet idle fun other nodeId => ?_
      rw [entry_insert, get_retained]
      rfl
    · rename_i nodeId condition picked
      have chosen := chosen_of_longestAgo keyed picked
      obtain ⟨⟨container, found, down⟩, held⟩ := chosen.eligible
      have kept : (retained ((healer.tries[workspace]?).getD ∅) env now)[nodeId]? =
          healer.entry workspace nodeId := retained_of_isDown found down _
      rw [kept]
      cases own : healer.entry workspace nodeId with
      | none =>
          exact .restart idle chosen (by rw [own]; rfl) (by simp [maxAttempts])
            (sets_insert healer workspace nodeId _)
      | some tried =>
          rw [own, ready, Option.all_some, Bool.and_eq_true, Bool.not_eq_true'] at held
          rw [Option.getD_some]
          split
          · rename_i many
            exact .giveUp idle chosen own many (sets_insert healer workspace nodeId _)
          · rename_i few
            rw [held.1]
            exact .restart idle chosen (by rw [own]; rfl) (Nat.lt_of_not_le few)
              (sets_insert healer workspace nodeId _)

end Pick

/-! ## The log -/

/-- What one pick is given. -/
structure Feed where
  workspace : String
  env : EnvState
  now : Nat

variable {held : Tries}

section Log

variable (feeds : Nat → Feed)

/-- The healer before the pick with this number. -/
def healerAt : Nat → Healer
  | 0 => {}
  | i + 1 => ((healerAt i).pick (feeds i).workspace (feeds i).env (feeds i).now).2

def answerAt (i : Nat) : Option Heal :=
  ((healerAt feeds i).pick (feeds i).workspace (feeds i).env (feeds i).now).1

/-- The node is restarted for the given time. -/
def Restarts (i : Nat) (workspace nodeId : String) (attempt : Nat) : Prop :=
  (feeds i).workspace = workspace ∧
    ∃ condition, answerAt feeds i = some (.restart nodeId condition attempt)

def GivesUp (i : Nat) (workspace nodeId : String) : Prop :=
  (feeds i).workspace = workspace ∧ answerAt feeds i = some (.giveUp nodeId)

/-- The last restart of the node before a pick. -/
def LastRestart (i : Nat) (workspace nodeId : String) (last : Nat) : Prop :=
  last < i ∧ (∃ attempt, Restarts feeds last workspace nodeId attempt) ∧
    ∀ between, last < between → between < i →
      ∀ attempt, ¬Restarts feeds between workspace nodeId attempt

/-- With nothing in flight the node is seen stopped, gone, or up for long since its last restart. -/
def Resets (i : Nat) (workspace nodeId : String) : Prop :=
  (feeds i).workspace = workspace ∧ ¬InFlight (feeds i).env ∧
    ∀ container, (feeds i).env.containers[nodeId]? = some container →
      container.desired.running = false ∨ container.condition = .running ∧
        ∃ last, LastRestart feeds i workspace nodeId last ∧
          stable ≤ (feeds i).now - (feeds last).now

/-- What a backoff says about the log. -/
structure Since (i : Nat) (workspace nodeId : String) (held : Tries) (last : Nat) : Prop where
  before : last < i
  attempt : Restarts feeds last workspace nodeId held.count
  time : held.last = (feeds last).now
  restarts : ∀ between, last < between → between < i →
    ∀ attempt, ¬Restarts feeds between workspace nodeId attempt
  resets : ∀ between, last < between → between < i → ¬Resets feeds between workspace nodeId
  givenUp : held.givenUp = true ↔ ∃ between, last < between ∧ between < i ∧
    GivesUp feeds between workspace nodeId
  positive : 1 ≤ held.count
  most : held.count ≤ maxAttempts

/-- The backoff of a node is known from the log. -/
def Logged (i : Nat) (workspace nodeId : String) : Option Tries → Prop
  | none => ∀ earlier, earlier < i → ∀ attempt, Restarts feeds earlier workspace nodeId attempt →
      ∃ between, earlier < between ∧ between < i ∧ Resets feeds between workspace nodeId
  | some held => ∃ last, Since feeds i workspace nodeId held last

variable {feeds} {i : Nat} {workspace nodeId : String}

theorem Since.lastRestart {last : Nat} (since : Since feeds i workspace nodeId held last) :
    LastRestart feeds i workspace nodeId last :=
  ⟨since.before, ⟨_, since.attempt⟩, since.restarts⟩

theorem LastRestart.unique {first second : Nat}
    (one : LastRestart feeds i workspace nodeId first)
    (two : LastRestart feeds i workspace nodeId second) : first = second := by
  obtain ⟨oneBefore, ⟨attempt, oneRestarts⟩, oneLast⟩ := one
  obtain ⟨twoBefore, ⟨other, twoRestarts⟩, twoLast⟩ := two
  rcases Nat.lt_trichotomy first second with less | same | more
  · exact absurd twoRestarts (oneLast second less twoBefore other)
  · exact same
  · exact absurd oneRestarts (twoLast first more oneBefore attempt)

/-- The last restart before a pick is the one its backoff was counted from. -/
theorem Since.eq_of_restarts {first last attempt : Nat}
    (since : Since feeds i workspace nodeId held last) (less : first < i)
    (restarts : Restarts feeds first workspace nodeId attempt)

    (between : ∀ between, first < between → between < i →
      ∀ attempt, ¬Restarts feeds between workspace nodeId attempt) :
    first = last ∧ attempt = held.count := by
  have one : LastRestart feeds i workspace nodeId first := ⟨less, ⟨attempt, restarts⟩, between⟩
  have same := one.unique since.lastRestart
  subst same
  obtain ⟨-, condition, answer⟩ := restarts
  obtain ⟨-, other, counted⟩ := since.attempt
  rw [answer] at counted
  cases counted
  exact ⟨rfl, rfl⟩

/-- A backoff goes on at a pick with nothing in flight exactly if the pick does not reset it. -/
theorem Since.goesOn_iff {last : Nat} (since : Since feeds i workspace nodeId held last)
    (here : (feeds i).workspace = workspace) (idle : ¬InFlight (feeds i).env) :
    goesOn (feeds i).env nodeId held.last (feeds i).now = true ↔
      ¬Resets feeds i workspace nodeId := by
  rw [since.time, goesOn]
  constructor
  · rintro goes ⟨-, -, recovered⟩
    cases found : (feeds i).env.containers[nodeId]? with
    | none =>
        rw [found] at goes
        cases goes
    | some container =>
        simp only [found, Option.any_some, Bool.and_eq_true, Bool.not_eq_true',
          Bool.and_eq_false_iff, beq_eq_false_iff_ne, decide_eq_false_iff_not] at goes
        rcases recovered container found with unwanted | ⟨running, other, lastly, long⟩
        · rw [unwanted] at goes
          cases goes.1
        · rw [lastly.unique since.lastRestart] at long
          rcases goes.2 with notRunning | short
          · exact notRunning running
          · exact short long
  · intro kept
    by_contra stops
    refine kept ⟨here, idle, fun container found => ?_⟩
    simp only [found, Option.any_some, Bool.and_eq_true, Bool.not_eq_true', not_and,
      Bool.not_eq_false, beq_iff_eq, decide_eq_true_eq] at stops
    cases wanted : container.desired.running with
    | false => exact .inl rfl
    | true => exact .inr ⟨(stops wanted).1, last, since.lastRestart, (stops wanted).2⟩

/-- A pick that says nothing about the node adds nothing to its log. -/
theorem Since.extend {last : Nat} (since : Since feeds i workspace nodeId held last)
    (restarts : ∀ attempt, ¬Restarts feeds i workspace nodeId attempt)
    (resets : ¬Resets feeds i workspace nodeId) (givesUp : ¬GivesUp feeds i workspace nodeId) :
    Since feeds (i + 1) workspace nodeId held last where
  before := Nat.lt_succ_of_lt since.before
  attempt := since.attempt
  time := since.time
  restarts between after below := by
    rcases Nat.lt_succ_iff_lt_or_eq.mp below with earlier | rfl
    · exact since.restarts between after earlier
    · exact restarts
  resets between after below := by
    rcases Nat.lt_succ_iff_lt_or_eq.mp below with earlier | rfl
    · exact since.resets between after earlier
    · exact resets
  givenUp := by
    rw [since.givenUp]
    constructor
    · rintro ⟨between, after, below, gives⟩
      exact ⟨between, after, Nat.lt_succ_of_lt below, gives⟩
    · rintro ⟨between, after, below, gives⟩
      rcases Nat.lt_succ_iff_lt_or_eq.mp below with earlier | rfl
      · exact ⟨between, after, earlier, gives⟩
      · exact absurd gives givesUp
  positive := since.positive
  most := since.most

/-- A pick that gives the node up. -/
theorem Since.giveUp {last : Nat} (since : Since feeds i workspace nodeId held last)
    (gives : GivesUp feeds i workspace nodeId) (resets : ¬Resets feeds i workspace nodeId) :
    Since feeds (i + 1) workspace nodeId { held with givenUp := true } last where
  before := Nat.lt_succ_of_lt since.before
  attempt := since.attempt
  time := since.time
  restarts between after below := by
    rcases Nat.lt_succ_iff_lt_or_eq.mp below with earlier | rfl
    · exact since.restarts between after earlier
    · rintro attempt ⟨-, condition, restart⟩
      rw [gives.2] at restart
      cases restart
  resets between after below := by
    rcases Nat.lt_succ_iff_lt_or_eq.mp below with earlier | rfl
    · exact since.resets between after earlier
    · exact resets
  givenUp := ⟨fun _ => ⟨i, since.before, Nat.lt_succ_self i, gives⟩, fun _ => rfl⟩
  positive := since.positive
  most := since.most

/-- A pick that restarts the node. -/
theorem since_restart {condition : NodeCondition} {count : Nat}
    (here : (feeds i).workspace = workspace)
    (answer : answerAt feeds i = some (.restart nodeId condition (count + 1)))
    (few : count < maxAttempts) :
    Since feeds (i + 1) workspace nodeId
      { count := count + 1, last := (feeds i).now, givenUp := false } i where
  before := Nat.lt_succ_self i
  attempt := ⟨here, condition, answer⟩
  time := rfl
  restarts between after below := by omega
  resets between after below := by omega
  givenUp := by
    constructor
    · intro given
      cases given
    · rintro ⟨between, after, below, -⟩
      omega
  positive := Nat.succ_pos count
  most := few

theorem Logged.idle (logged : Logged feeds i workspace nodeId none)
    (restarts : ∀ attempt, ¬Restarts feeds i workspace nodeId attempt) :
    Logged feeds (i + 1) workspace nodeId none := by
  intro earlier below attempt restart
  rcases Nat.lt_succ_iff_lt_or_eq.mp below with less | rfl
  · obtain ⟨between, after, before, reset⟩ := logged earlier less attempt restart
    exact ⟨between, after, Nat.lt_succ_of_lt before, reset⟩
  · exact absurd restart (restarts attempt)

theorem Logged.silent {held : Option Tries} (logged : Logged feeds i workspace nodeId held)
    (restarts : ∀ attempt, ¬Restarts feeds i workspace nodeId attempt)
    (resets : ¬Resets feeds i workspace nodeId) (givesUp : ¬GivesUp feeds i workspace nodeId) :
    Logged feeds (i + 1) workspace nodeId held := by
  cases held with
  | none => exact logged.idle restarts
  | some held =>
      obtain ⟨last, since⟩ := logged
      exact ⟨last, since.extend restarts resets givesUp⟩

/-- What is retained is known from the log. -/
theorem Logged.kept {held : Option Tries} (logged : Logged feeds i workspace nodeId held)
    (here : (feeds i).workspace = workspace) (idle : ¬InFlight (feeds i).env)
    (restarts : ∀ attempt, ¬Restarts feeds i workspace nodeId attempt)
    (givesUp : ¬GivesUp feeds i workspace nodeId) :
    Logged feeds (i + 1) workspace nodeId (held.filter fun held =>
      goesOn (feeds i).env nodeId held.last (feeds i).now) := by
  cases held with
  | none => exact logged.idle restarts
  | some held =>
      obtain ⟨last, since⟩ := logged
      have goes := since.goesOn_iff here idle
      by_cases kept : goesOn (feeds i).env nodeId held.last (feeds i).now = true
      · rw [Option.filter_some, if_pos kept]
        exact ⟨last, since.extend restarts (goes.mp kept) givesUp⟩
      · rw [Option.filter_some, if_neg kept]
        intro earlier below attempt restart
        rcases Nat.lt_succ_iff_lt_or_eq.mp below with less | rfl
        · exact ⟨i, less, Nat.lt_succ_self i, not_not.mp fun none => kept (goes.mpr none)⟩
        · exact absurd restart (restarts attempt)

theorem not_restarts_of_answer {heal : Option Heal} (answer : answerAt feeds i = heal)
    (other : ∀ condition attempt, heal ≠ some (.restart nodeId condition attempt)) (attempt : Nat) :
    ¬Restarts feeds i workspace nodeId attempt := by
  rintro ⟨-, condition, restart⟩
  exact other condition attempt (answer.symm.trans restart)

theorem not_givesUp_of_answer {heal : Option Heal} (answer : answerAt feeds i = heal)
    (other : heal ≠ some (.giveUp nodeId)) : ¬GivesUp feeds i workspace nodeId :=
  fun gives => other (answer.symm.trans gives.2)

/-- A pick that names a node does not reset it. -/
theorem not_resets_of_eligible
    (eligible : (healerAt feeds i).Eligible workspace (feeds i).env (feeds i).now nodeId) :
    ¬Resets feeds i workspace nodeId := by
  rintro ⟨-, -, recovered⟩
  obtain ⟨⟨container, found, down⟩, -⟩ := eligible
  obtain ⟨wanted, stopped⟩ := wanted_of_isDown down
  rcases recovered container found with unwanted | ⟨running, -⟩
  · rw [wanted] at unwanted
    cases unwanted
  · exact stopped running

variable (keyed : ∀ i, Converge.keyed (feeds i).env)
include keyed

theorem outcomeAt (i : Nat) :
    Outcome (healerAt feeds i) (feeds i).workspace (feeds i).env (feeds i).now (answerAt feeds i)
      (healerAt feeds (i + 1)) :=
  pick_outcome _ _ _ (keyed i)

/-- A pick for one workspace never changes another's backoff. -/
theorem entry_other (i : Nat) (workspace nodeId : String)
    (other : (feeds i).workspace ≠ workspace) :
    (healerAt feeds (i + 1)).entry workspace nodeId =
      (healerAt feeds i).entry workspace nodeId := by
  have outcome := outcomeAt keyed i
  generalize answerAt feeds i = heal at outcome
  generalize healerAt feeds (i + 1) = next at outcome ⊢
  cases outcome with
  | busy => rfl
  | quiet _ sets => rw [sets, if_neg (Ne.symm other)]
  | restart _ _ _ _ sets => rw [sets, if_neg (Ne.symm other)]
  | giveUp _ _ _ _ sets => rw [sets, if_neg (Ne.symm other)]

theorem logged_step (logged : ∀ workspace nodeId : String,
      Logged feeds i workspace nodeId ((healerAt feeds i).entry workspace nodeId))
    (workspace nodeId : String) :
    Logged feeds (i + 1) workspace nodeId ((healerAt feeds (i + 1)).entry workspace nodeId) := by
  have past := logged workspace nodeId
  by_cases here : (feeds i).workspace = workspace
  · have outcome := outcomeAt keyed i
    rw [here] at outcome
    generalize answer : answerAt feeds i = heal at outcome
    generalize healerAt feeds (i + 1) = next at outcome ⊢
    cases outcome with
    | busy taken =>
        exact past.silent (not_restarts_of_answer answer (by simp)) (fun reset => reset.2.1 taken)
          (not_givesUp_of_answer answer (by simp))
    | quiet idle sets =>
        rw [sets, if_pos rfl]
        exact past.kept here idle (not_restarts_of_answer answer (by simp))
          (not_givesUp_of_answer answer (by simp))
    | @restart _ chosenId condition count idle chosen counted few sets =>
        rw [sets, if_pos rfl]
        dsimp only
        by_cases same : nodeId = chosenId
        · subst same
          rw [if_pos rfl]
          exact ⟨i, since_restart here answer few⟩
        · rw [if_neg same]
          exact past.kept here idle (not_restarts_of_answer answer (by simp [Ne.symm same]))
            (not_givesUp_of_answer answer (by simp))
    | @giveUp _ chosenId condition held idle chosen found many sets =>
        rw [sets, if_pos rfl]
        dsimp only
        by_cases same : nodeId = chosenId
        · subst same
          rw [found] at past
          obtain ⟨last, since⟩ := past
          rw [if_pos rfl]
          exact ⟨last, since.giveUp ⟨here, answer⟩ (not_resets_of_eligible chosen.eligible)⟩
        · rw [if_neg same]
          exact past.kept here idle (not_restarts_of_answer answer (by simp))
            (not_givesUp_of_answer answer (by simp [Ne.symm same]))
  · rw [entry_other keyed i workspace nodeId here]
    exact past.silent (fun _ restart => here restart.1) (fun reset => here reset.1)
      fun gives => here gives.1

/-- At every pick, the backoffs are known from the log. -/
theorem logged (i : Nat) (workspace nodeId : String) :
    Logged feeds i workspace nodeId ((healerAt feeds i).entry workspace nodeId) := by
  induction i generalizing workspace nodeId with
  | zero =>
      have empty : (healerAt feeds 0).entry workspace nodeId = none := by
        simp [healerAt, entry]
      rw [empty]
      exact fun earlier below => absurd below (Nat.not_lt_zero earlier)
  | succ i ih => exact logged_step keyed ih workspace nodeId

/-- What a restart was chosen and counted from. -/
theorem restarts_spec {attempt : Nat} (restarts : Restarts feeds i workspace nodeId attempt) :
    ∃ condition, answerAt feeds i = some (.restart nodeId condition attempt) ∧
      ¬InFlight (feeds i).env ∧
      (healerAt feeds i).Chosen workspace (feeds i).env (feeds i).now nodeId condition ∧
      attempt = (((healerAt feeds i).entry workspace nodeId).map Tries.count).getD 0 + 1 ∧
      attempt ≤ maxAttempts := by
  obtain ⟨here, condition, answer⟩ := restarts
  have outcome := outcomeAt keyed i
  rw [here, answer] at outcome
  generalize healerAt feeds (i + 1) = next at outcome
  cases outcome with
  | restart idle chosen counted few => exact ⟨condition, answer, idle, chosen, by rw [counted], few⟩

theorem givesUp_spec (gives : GivesUp feeds i workspace nodeId) :
    ∃ condition held, ¬InFlight (feeds i).env ∧
      (healerAt feeds i).Chosen workspace (feeds i).env (feeds i).now nodeId condition ∧
      (healerAt feeds i).entry workspace nodeId = some held ∧ maxAttempts ≤ held.count := by
  obtain ⟨here, answer⟩ := gives
  have outcome := outcomeAt keyed i
  rw [here, answer] at outcome
  generalize healerAt feeds (i + 1) = next at outcome
  cases outcome with
  | giveUp idle chosen found many => exact ⟨_, _, idle, chosen, found, many⟩

/-- A node that was restarted and not reset since has a backoff. -/
theorem exists_since {first attempt : Nat} (less : first < i)
    (restarts : Restarts feeds first workspace nodeId attempt)
    (resets : ∀ between, first < between → between < i → ¬Resets feeds between workspace nodeId) :
    ∃ held last, (healerAt feeds i).entry workspace nodeId = some held ∧
      Since feeds i workspace nodeId held last := by
  have past := logged keyed i workspace nodeId
  cases found : (healerAt feeds i).entry workspace nodeId with
  | none =>
      rw [found] at past
      obtain ⟨between, after, below, reset⟩ := past first less attempt restarts
      exact absurd reset (resets between after below)
  | some held =>
      rw [found] at past
      obtain ⟨last, since⟩ := past
      exact ⟨held, last, rfl, since⟩

end Log

/-- After so many attempts the next one waits for five seconds doubled each time, but for five
minutes at most. -/
def delay (attempt : Nat) : Nat := min (5 * 2 ^ (attempt - 1)) 300 * 1000000000

theorem delay_le_of_due {now : Nat} (due : held.due now) (most : held.count ≤ maxAttempts) :
    delay held.count ≤ now - held.last := by
  have small : min (held.count - 1) 16 = held.count - 1 := by
    rw [maxAttempts] at most
    omega
  rw [Tries.due, decide_eq_true_eq, Nat.one_shiftLeft, small, firstDelay, maxDelay] at due
  rw [delay]
  generalize 2 ^ (held.count - 1) = power at due ⊢
  omega

/-- The node is restarted or given up. -/
def Names (feeds : Nat → Feed) (i : Nat) (workspace nodeId : String) : Prop :=
  (∃ attempt, Restarts feeds i workspace nodeId attempt) ∨ GivesUp feeds i workspace nodeId

/-- Nothing restarts or resets the node between two picks. -/
def Undisturbed (feeds : Nat → Feed) (first second : Nat) (workspace nodeId : String) : Prop :=
  ∀ between, first < between → between < second → ¬Resets feeds between workspace nodeId ∧
    ∀ attempt, ¬Restarts feeds between workspace nodeId attempt

/-- How the healer backs off, gives up and is fair. -/
structure BacksOff (feeds : Nat → Feed) : Prop where
  /-- Nothing is picked while anything is in flight. -/
  idle : ∀ i, InFlight (feeds i).env → answerAt feeds i = none
  /-- The first restart since a reset is the first attempt. -/
  first : ∀ (i : Nat) (workspace nodeId : String) (attempt : Nat),
    Restarts feeds i workspace nodeId attempt →
    (∀ earlier < i, ∀ other, Restarts feeds earlier workspace nodeId other →
      ∃ between, earlier < between ∧ between < i ∧ Resets feeds between workspace nodeId) →
    attempt = 1
  /-- The next one is the next attempt and waits for its delay. -/
  next : ∀ (i j : Nat) (workspace nodeId : String) (attempt other : Nat), i < j →
    Restarts feeds i workspace nodeId attempt → Restarts feeds j workspace nodeId other →
    Undisturbed feeds i j workspace nodeId →
    other = attempt + 1 ∧ delay attempt ≤ (feeds j).now - (feeds i).now
  most : ∀ (i : Nat) (workspace nodeId : String) (attempt : Nat),
    Restarts feeds i workspace nodeId attempt → attempt ≤ 8
  /-- A node is given up five minutes after the eighth attempt or later, and not twice. -/
  givesUp : ∀ (j : Nat) (workspace nodeId : String), GivesUp feeds j workspace nodeId →
    ∃ i < j, Restarts feeds i workspace nodeId 8 ∧ Undisturbed feeds i j workspace nodeId ∧
      (∀ between, i < between → between < j → ¬GivesUp feeds between workspace nodeId) ∧
      300 * 1000000000 ≤ (feeds j).now - (feeds i).now
  /-- Nothing is done for a node that was given up until it is reset. -/
  quiet : ∀ (i j : Nat) (workspace nodeId : String), i < j → GivesUp feeds i workspace nodeId →
    Names feeds j workspace nodeId →
    ∃ between, i < between ∧ between < j ∧ Resets feeds between workspace nodeId
  down : ∀ (i : Nat) (workspace nodeId : String), Names feeds i workspace nodeId →
    ∃ container, (feeds i).env.containers[nodeId]? = some container ∧
      (container.condition = .crashed ∨ container.condition = .interrupted)
  /-- Between two restarts of a node every other one that is eligible had its turn. -/
  fair : ∀ (i j : Nat) (workspace nodeId : String) (attempt other : Nat), i < j →
    Restarts feeds i workspace nodeId attempt → Restarts feeds j workspace nodeId other →
    Undisturbed feeds i j workspace nodeId →
    ∀ rival, rival ≠ nodeId →
      (healerAt feeds j).Eligible workspace (feeds j).env (feeds j).now rival →
      ∃ between, i < between ∧ between < j ∧
        ∃ attempt, Restarts feeds between workspace rival attempt
  /-- A pick for one workspace never changes another's backoff. -/
  apart : ∀ (i : Nat) (workspace nodeId : String), (feeds i).workspace ≠ workspace →
    (healerAt feeds (i + 1)).entry workspace nodeId = (healerAt feeds i).entry workspace nodeId
  /-- What is subtracted from a count never exceeds it. -/
  counted : ∀ (i : Nat) (workspace nodeId : String) (held : Tries),
    (healerAt feeds i).entry workspace nodeId = some held → 1 ≤ held.count

section BacksOff

variable {feeds : Nat → Feed} {i j : Nat} {workspace nodeId : String}
  (keyed : ∀ i, Converge.keyed (feeds i).env)
include keyed

theorem chosen_of_names (names : Names feeds i workspace nodeId) :
    ∃ condition,
      (healerAt feeds i).Chosen workspace (feeds i).env (feeds i).now nodeId condition := by
  rcases names with ⟨attempt, restarts⟩ | gives
  · obtain ⟨condition, -, -, chosen, -⟩ := restarts_spec keyed restarts
    exact ⟨condition, chosen⟩
  · obtain ⟨condition, held, -, chosen, -⟩ := givesUp_spec keyed gives
    exact ⟨condition, chosen⟩

/-- The backoff of a node that is named lets it be tried. -/
theorem ready_of_names (names : Names feeds i workspace nodeId)
    (found : (healerAt feeds i).entry workspace nodeId = some held) :
    held.givenUp = false ∧ held.due (feeds i).now := by
  obtain ⟨condition, chosen⟩ := chosen_of_names keyed names
  have able := chosen.eligible.2
  rw [found, ready, Option.all_some, Bool.and_eq_true, Bool.not_eq_true'] at able
  exact able

theorem restarts_next {attempt other : Nat} (less : i < j)
    (one : Restarts feeds i workspace nodeId attempt)
    (two : Restarts feeds j workspace nodeId other)
    (undisturbed : Undisturbed feeds i j workspace nodeId) :
    other = attempt + 1 ∧ delay attempt ≤ (feeds j).now - (feeds i).now := by
  obtain ⟨held, last, found, since⟩ := exists_since keyed less one fun between after below =>
    (undisturbed between after below).1
  obtain ⟨rfl, rfl⟩ := since.eq_of_restarts less one fun between after below =>
    (undisturbed between after below).2
  obtain ⟨condition, -, -, -, counted, -⟩ := restarts_spec keyed two
  rw [found, Option.map_some, Option.getD_some] at counted
  have waited := delay_le_of_due (ready_of_names keyed (.inl ⟨other, two⟩) found).2 since.most
  rw [since.time] at waited
  exact ⟨counted, waited⟩

theorem givesUp_after (gives : GivesUp feeds j workspace nodeId) :
    ∃ i < j, Restarts feeds i workspace nodeId 8 ∧ Undisturbed feeds i j workspace nodeId ∧
      (∀ between, i < between → between < j → ¬GivesUp feeds between workspace nodeId) ∧
      300 * 1000000000 ≤ (feeds j).now - (feeds i).now := by
  obtain ⟨condition, held, -, -, found, many⟩ := givesUp_spec keyed gives
  have past := logged keyed j workspace nodeId
  rw [found] at past
  obtain ⟨last, since⟩ := past
  have eight : held.count = 8 := Nat.le_antisymm since.most many
  obtain ⟨unclosed, due⟩ := ready_of_names keyed (.inr gives) found
  have waited := delay_le_of_due due since.most
  rw [since.time, eight] at waited
  refine ⟨last, since.before, eight ▸ since.attempt, fun between after below =>
    ⟨since.resets between after below, since.restarts between after below⟩, ?_, ?_⟩
  · intro between after below given
    have closed := since.givenUp.mpr ⟨between, after, below, given⟩
    rw [unclosed] at closed
    cases closed
  · simpa [delay] using waited

/-- By induction on the later pick: an earlier one that names the node would be reset already. -/
theorem quiet_until_reset (less : i < j) (gives : GivesUp feeds i workspace nodeId)
    (names : Names feeds j workspace nodeId) :
    ∃ between, i < between ∧ between < j ∧ Resets feeds between workspace nodeId := by
  induction j using Nat.strongRecOn with
  | _ j ih =>
      by_contra none
      push Not at none
      obtain ⟨last, lastBefore, restarts, undisturbed, -, -⟩ := givesUp_after keyed gives
      have resets : ∀ between, last < between → between < j →
          ¬Resets feeds between workspace nodeId := by
        intro between after below
        rcases Nat.lt_trichotomy between i with earlier | rfl | later
        · exact (undisturbed between after earlier).1
        · obtain ⟨condition, chosen⟩ := chosen_of_names keyed (.inr gives)
          exact not_resets_of_eligible chosen.eligible
        · exact none between later below
      obtain ⟨held, latest, found, since⟩ :=
        exists_since keyed (Nat.lt_trans lastBefore less) restarts resets
      rcases Nat.lt_trichotomy latest i with earlier | rfl | later
      · have closed := since.givenUp.mpr ⟨i, earlier, less, gives⟩
        rw [(ready_of_names keyed names found).1] at closed
        cases closed
      · obtain ⟨-, condition, answer⟩ := since.attempt
        rw [gives.2] at answer
        cases answer
      · obtain ⟨between, after, below, reset⟩ :=
          ih latest since.before later (.inl ⟨_, since.attempt⟩)
        exact none between after (Nat.lt_trans below since.before) reset

/-- The node that is tried was tried longest ago, so a rival's last try is later. -/
theorem fair_between (increasing : ∀ i j, i < j → (feeds i).now < (feeds j).now)
    {attempt other : Nat} (less : i < j) (one : Restarts feeds i workspace nodeId attempt)
    (two : Restarts feeds j workspace nodeId other)
    (undisturbed : Undisturbed feeds i j workspace nodeId) {rival : String}
    (apart : rival ≠ nodeId)
    (eligible : (healerAt feeds j).Eligible workspace (feeds j).env (feeds j).now rival) :
    ∃ between, i < between ∧ between < j ∧
      ∃ attempt, Restarts feeds between workspace rival attempt := by
  obtain ⟨held, last, found, since⟩ := exists_since keyed less one fun between after below =>
    (undisturbed between after below).1
  obtain ⟨rfl, -⟩ := since.eq_of_restarts less one fun between after below =>
    (undisturbed between after below).2
  obtain ⟨condition, -, -, chosen, -⟩ := restarts_spec keyed two
  have first := chosen.first rival eligible
  rw [found, Option.map_some, since.time] at first
  have past := logged keyed j workspace rival
  cases entered : (healerAt feeds j).entry workspace rival with
  | none =>
      rw [entered] at first
      cases first
  | some rivalHeld =>
      rw [entered] at first past
      obtain ⟨latest, rivalSince⟩ := past
      rw [Option.map_some, before, decide_eq_false_iff_not, rivalSince.time] at first
      refine ⟨latest, ?_, rivalSince.before, _, rivalSince.attempt⟩
      rcases Nat.lt_trichotomy latest i with earlier | rfl | later
      · exact absurd (increasing latest i earlier) first
      · obtain ⟨-, restarted, answer⟩ := one
        obtain ⟨-, rivalRestarted, rivalAnswer⟩ := rivalSince.attempt
        rw [answer] at rivalAnswer
        cases rivalAnswer
        exact absurd rfl apart
      · exact later

end BacksOff

/-- Whatever is fed to the healer at later and later instants, it backs off, gives up and is
fair. -/
theorem backs_off (feeds : Nat → Feed) (keyed : ∀ i, Converge.keyed (feeds i).env)
    (increasing : ∀ i j, i < j → (feeds i).now < (feeds j).now) : BacksOff feeds where
  idle i taken := by
    have outcome := outcomeAt keyed i
    generalize answerAt feeds i = answer at outcome ⊢
    generalize healerAt feeds (i + 1) = next at outcome
    cases outcome with
    | busy => rfl
    | quiet => rfl
    | restart idle => exact absurd taken idle
    | giveUp idle => exact absurd taken idle
  first i workspace nodeId attempt restarts reset := by
    obtain ⟨condition, -, -, -, counted, -⟩ := restarts_spec keyed restarts
    cases found : (healerAt feeds i).entry workspace nodeId with
    | none =>
        rw [found] at counted
        exact counted
    | some held =>
        have past := logged keyed i workspace nodeId
        rw [found] at past
        obtain ⟨last, since⟩ := past
        obtain ⟨between, after, below, resets⟩ := reset last since.before _ since.attempt
        exact absurd resets (since.resets between after below)
  next i j workspace nodeId attempt other less one two undisturbed :=
    restarts_next keyed less one two undisturbed
  most i workspace nodeId attempt restarts := by
    obtain ⟨condition, -, -, -, -, most⟩ := restarts_spec keyed restarts
    exact most
  givesUp j workspace nodeId gives := givesUp_after keyed gives
  quiet i j workspace nodeId less gives names := quiet_until_reset keyed less gives names
  down i workspace nodeId names := by
    obtain ⟨condition, chosen⟩ := chosen_of_names keyed names
    obtain ⟨container, found, down⟩ := chosen.eligible.1
    exact ⟨container, found, by simpa [isDown] using down⟩
  fair i j workspace nodeId attempt other less one two undisturbed rival apart eligible :=
    fair_between keyed increasing less one two undisturbed apart eligible
  apart i workspace nodeId other := entry_other keyed i workspace nodeId other
  counted i workspace nodeId held found := by
    have past := logged keyed i workspace nodeId
    rw [found] at past
    obtain ⟨last, since⟩ := past
    exact since.positive

/-- The service stays down while a pick is made every second. -/
def everySecond (i : Nat) : Feed := { workspace := "shop", env := crashed, now := i * 1000000000 }

theorem backs_off_everySecond : BacksOff everySecond :=
  backs_off everySecond (fun _ => keyed_crashed crashed rfl) fun _ _ less =>
    Nat.mul_lt_mul_of_pos_right less (by decide)

end Healer
end Fghj
