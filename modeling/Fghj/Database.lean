import Fghj.ConvergeSpec
import Fghj.Library.Json
import Fghj.Readings

/-!
# The workspace database

The environment in the workspace's database: the JSON columns a container is written to, the tables,
the effect that mirrors the state into them, and the schema a database of another version is brought
to. An environment reads back as it was written but for what is not stored, a history of snapshots
leaves the last one written, and an upgrade empties every table.
-/

namespace Fghj
namespace Persistence

open Std

/-! ## Columns -/

section Columns

open Json

/-- A string that may be absent. -/
def optionalString : Codec (Option String) := Codec.option .string fun _ => rfl

/-- A host port that may be absent. -/
def optionalPort : Codec (Option UInt16) := Codec.option .u16 fun _ => rfl

/-- A route. -/
def portRoute : Codec PortRoute where
  write route := .obj
    [("domain", Codec.string.write route.domain), ("host_port", Codec.u16.write route.hostPort),
      ("wildcard", Codec.bool.write route.wildcard),
      ("container_port", Codec.string.write route.containerPort),
      ("https", Codec.bool.write route.https)]
  read := record ["domain", "host_port", "wildcard", "container_port", "https"] fun fields => do
    return {
      domain := ← required .string fields "domain"
      hostPort := ← required .u16 fields "host_port"
      wildcard := ← required .bool fields "wildcard"
      containerPort := ← required .string fields "container_port"
      https := ← required .bool fields "https" }
  read_write route := by
    rw [record_obj (by simp)]
    simp

/-- The checkout of a container. -/
def containerSource : Codec ContainerSource where
  write source := .obj
    [("branch", optionalString.write source.branch), ("head", optionalString.write source.head),
      ("dirty", Codec.bool.write source.dirty)]
  read := record ["branch", "head", "dirty"] fun fields => do
    return {
      branch := ← defaulted optionalString none fields "branch"
      head := ← defaulted optionalString none fields "head"
      dirty := ← required .bool fields "dirty" }
  read_write source := by
    rw [record_obj (by simp)]
    simp

/-- The `desired` column. -/
def containerDesired : Codec ContainerDesired where
  write desired := .obj
    [("running", Codec.bool.write desired.running),
      ("container_name", Codec.string.write desired.containerName),
      ("domain", Codec.string.write desired.domain),
      ("raw_domain", Codec.string.write desired.rawDomain),
      ("routes", (Codec.list portRoute).write desired.routes),
      ("additional_hosts", (Codec.list .string).write desired.additionalHosts),
      ("status_port", optionalString.write desired.statusPort),
      ("config_hash", Codec.string.write desired.configHash),
      ("source", (Codec.option containerSource fun _ => rfl).write desired.source),
      ("terminating", Codec.bool.write desired.terminating),
      ("debug_wait", Codec.bool.write desired.debugWait)]
  read := record
      ["running", "container_name", "domain", "raw_domain", "routes", "additional_hosts",
        "status_port", "config_hash", "source", "terminating", "debug_wait"] fun fields => do
    return {
      running := ← required .bool fields "running"
      containerName := ← required .string fields "container_name"
      domain := ← required .string fields "domain"
      rawDomain := ← required .string fields "raw_domain"
      routes := ← required (.list portRoute) fields "routes"
      additionalHosts := ← required (.list .string) fields "additional_hosts"
      statusPort := ← defaulted optionalString none fields "status_port"
      configHash := ← required .string fields "config_hash"
      source := ← defaulted (.option containerSource fun _ => rfl) none fields "source"
      terminating := ← required .bool fields "terminating"
      debugWait := ← required .bool fields "debug_wait" }
  read_write desired := by
    rw [record_obj (by simp)]
    simp

/-- The words of the sync status. -/
def syncStatus : Codec SyncStatus where
  write
    | .unknown => .str "unknown"
    | .synced => .str "synced"
    | .drifted => .str "drifted"
    | .orphaned => .str "orphaned"
  read
    | .str word =>
        if word = "unknown" then some .unknown
        else if word = "synced" then some .synced
        else if word = "drifted" then some .drifted
        else if word = "orphaned" then some .orphaned
        else none
    | _ => none
  read_write status := by cases status <;> simp

/-- The `observed` column; a verdict on a seed that is not there is left out. -/
def containerObserved : Codec ContainerObserved where
  write observed := .obj <|
    [("status", Codec.string.write observed.status),
      ("published_port", optionalPort.write observed.publishedPort),
      ("ports", (Codec.map optionalPort).write observed.ports),
      ("sync", syncStatus.write observed.sync),
      ("exit_code", (Codec.option .int fun _ => rfl).write observed.exitCode),
      ("interrupted", Codec.bool.write observed.interrupted),
      ("unseen", Codec.bool.write observed.unseen)] ++
    if observed.seeded.isNone then []
    else [("seeded", (Codec.option .bool fun _ => rfl).write observed.seeded)]
  read := record
      ["status", "published_port", "ports", "sync", "exit_code", "interrupted", "unseen",
        "seeded"] fun fields => do
    return {
      status := ← required .string fields "status"
      publishedPort := ← defaulted optionalPort none fields "published_port"
      ports := ← required (.map optionalPort) fields "ports"
      sync := ← required syncStatus fields "sync"
      exitCode := ← defaulted (.option .int fun _ => rfl) none fields "exit_code"
      interrupted := ← defaulted .bool false fields "interrupted"
      unseen := ← defaulted .bool false fields "unseen"
      seeded := ← defaulted (.option .bool fun _ => rfl) none fields "seeded" }
  read_write observed := by
    obtain ⟨status, publishedPort, ports, sync, exitCode, interrupted, unseen, seeded⟩ := observed
    cases seeded with
    | none =>
        rw [record_obj (by simp)]
        simp
    | some verdict =>
        rw [record_obj (by simp)]
        simp

end Columns

/-! ## Tables -/

/-- How JSON is put into text, and read off it. -/
structure Text where
  render : Json → String
  parse : String → Option Json

/-- A column that no longer parses reads as empty. -/
def jsonColumn {α : Type} (text : Text) (codec : Json.Codec α) (empty : α) (raw : String) : α :=
  ((text.parse raw).bind codec.read).getD empty

structure EnvRow where
  network : String
  sidecarContainerName : String
  sidecarIp : Option String
  deriving DecidableEq

structure ContainerRow where
  desired : String
  observed : String
  deriving DecidableEq

/-- The tables of the environment: the one row `env` may have, and the rows of `containers` by their
primary key. -/
structure Database where
  env : Option EnvRow := none
  containers : OrderedMap String ContainerRow := ∅
  deriving DecidableEq

/-- The row of a container. -/
def containerRow (text : Text) (container : ContainerInfo) : ContainerRow where
  desired := text.render (containerDesired.write container.desired)
  observed := text.render (containerObserved.write container.observed)

/-- The container of a row. -/
def rowContainer (text : Text) (nodeId : String) (row : ContainerRow) : ContainerInfo :=
  let observed := jsonColumn text containerObserved {} row.observed
  { nodeId
    desired := jsonColumn text containerDesired {} row.desired
    observed :=
      { observed with
        -- Orphanhood is derived again from the graph.
        sync := if observed.sync = .orphaned then .unknown else observed.sync }
    pendingAction := none }

/-- Insert one container; a second one under the same primary key fails. -/
def insertContainer (text : Text) (rows : OrderedMap String ContainerRow)
    (container : ContainerInfo) : Option (OrderedMap String ContainerRow) :=
  if rows.contains container.nodeId then none
  else some (rows.insert container.nodeId (containerRow text container))

namespace Database

/-- `save_env`: one transaction, which fails as a whole. -/
def saveEnv (text : Text) (db : Database) (env : EnvState) : Option Database := do
  let containers ← (OrderedMap.listed env.containers).foldlM (insertContainer text) ∅
  return { db with
    env := some
      { network := env.network
        sidecarContainerName := env.sidecarContainerName
        sidecarIp := env.sidecarIp }
    containers }

/-- `delete_env` -/
def deleteEnv (db : Database) : Database := { db with env := none, containers := ∅ }

/-- `load_env` -/
def loadEnv (text : Text) (db : Database) : Option EnvState :=
  db.env.map fun row =>
    { network := row.network
      sidecarContainerName := row.sidecarContainerName
      sidecarIp := row.sidecarIp
      containers := db.containers.map (rowContainer text) }

end Database

/-- Every column of the environment reads back from its text. -/
def ReadsBack (text : Text) (env : EnvState) : Prop :=
  ∀ (nodeId : String) (container : ContainerInfo), env.containers[nodeId]? = some container →
    text.parse (text.render (containerDesired.write container.desired)) =
        some (containerDesired.write container.desired) ∧
      text.parse (text.render (containerObserved.write container.observed)) =
        some (containerObserved.write container.observed)

section Tables

variable {text : Text} {env : EnvState}

/-- A row reads back as the container but for what is not stored. -/
theorem rowContainer_containerRow {container : ContainerInfo}
    (desired : text.parse (text.render (containerDesired.write container.desired)) =
      some (containerDesired.write container.desired))
    (observed : text.parse (text.render (containerObserved.write container.observed)) =
      some (containerObserved.write container.observed)) :
    rowContainer text container.nodeId (containerRow text container) = restored container := by
  simp [rowContainer, containerRow, jsonColumn, desired, observed, restored]

/-- Containers under distinct primary keys all go in. -/
theorem foldlM_insertContainer {containers : List ContainerInfo}
    (distinct : (containers.map ContainerInfo.nodeId).Nodup)
    {rows : OrderedMap String ContainerRow}
    (fresh : ∀ container ∈ containers, rows[container.nodeId]? = none) :
    containers.foldlM (insertContainer text) rows =
      some (containers.foldl (fun rows container =>
        rows.insert container.nodeId (containerRow text container)) rows) := by
  induction containers generalizing rows with
  | nil => rfl
  | cons first containers ih =>
      rw [List.map_cons, List.nodup_cons] at distinct
      have absent : rows.contains first.nodeId = false := by
        rw [ExtTreeMap.contains_eq_isSome_getElem?, fresh first List.mem_cons_self]
        rfl
      rw [List.foldlM_cons, insertContainer, if_neg (by simp [absent]), Option.bind_eq_bind,
        Option.bind_some, List.foldl_cons]
      apply ih distinct.2
      intro container later
      have different : container.nodeId ≠ first.nodeId := by
        intro same
        exact distinct.1 (same ▸ List.mem_map_of_mem later)
      rw [ExtTreeMap.getElem?_insert, if_neg (by simpa using different.symm)]
      exact fresh container (List.mem_cons_of_mem _ later)

/-- Records under their own ids are written one row each, whatever was stored before. -/
theorem saveEnv_of_keyed (text : Text) (ids : Converge.keyed env) (stored : Database) :
    stored.saveEnv text env = some
      { env := some
          { network := env.network
            sidecarContainerName := env.sidecarContainerName
            sidecarIp := env.sidecarIp }
        containers := env.containers.map fun _ container => containerRow text container } := by
  have own := (Converge.keyed_iff env).mp ids
  have distinct := OrderedMap.nodup_map_listed env.containers own
  simp [Database.saveEnv, foldlM_insertContainer distinct,
    OrderedMap.foldl_insert_listed env.containers own]

/-- The environment as the store gives it back, for records under their own ids. -/
theorem loadEnv_of_keyed (ids : Converge.keyed env) :
    loadEnv env =
      { env with
        pendingCreate := none
        volumes := ∅
        containers := env.containers.map fun _ container => restored container } := by
  have own := (Converge.keyed_iff env).mp ids
  have containers : (OrderedMap.listed env.containers).foldl (fun containers container =>
      containers.insert container.nodeId (restored container)) ∅ =
        env.containers.map fun _ container => restored container :=
    OrderedMap.foldl_insert_listed env.containers own restored
  simp [loadEnv, containers]

/-- An environment reads back from the tables it was written to as the store gives it back. -/
theorem loadEnv_saveEnv (ids : Converge.keyed env) (reads : ReadsBack text env)
    (stored : Database) : (stored.saveEnv text env).bind (Database.loadEnv text) =
      some (loadEnv env) := by
  have own := (Converge.keyed_iff env).mp ids
  have containers : (env.containers.map fun _ container => containerRow text container).map
      (rowContainer text) = env.containers.map fun _ container => restored container := by
    apply ExtTreeMap.ext_getElem?
    intro nodeId
    simp only [ExtTreeMap.getElem?_map]
    cases held : env.containers[nodeId]? with
    | none => rfl
    | some container =>
        obtain ⟨desired, observed⟩ := reads nodeId container held
        have name := own nodeId container held
        subst name
        simp [rowContainer_containerRow desired observed]
  simp [saveEnv_of_keyed text ids, loadEnv_of_keyed ids, Database.loadEnv, containers]

end Tables

/-! ## The effect -/

/-- How the calls to the database end. A save is one transaction; a deletion is two statements that
each stand for themselves, and may end between them. -/
inductive Outcome where
  | done
  | failed
  | halfway
  deriving DecidableEq

/-- The effect and the tables it writes. -/
structure PersistEffect where
  db : Database := {}
  written : Bool := false

/-- The snapshot is written or deleted, not passed over. -/
def PersistEffect.writes (effect : PersistEffect) : Option EnvState → Bool
  | some env => !uncreated env
  | none => effect.written

/-- `converge`: whether it succeeded, and the effect after it. -/
def PersistEffect.converge (text : Text) (effect : PersistEffect) (snapshot : Option EnvState)
    (outcome : Outcome) : Bool × PersistEffect :=
  match snapshot with
  | some env =>
      -- Not created yet: persisting it would bring an empty shell back.
      if uncreated env then (true, effect)
      else
        match outcome, effect.db.saveEnv text env with
        | .done, some db => (true, { db, written := true })
        | _, _ => (false, effect)
  | none =>
      if effect.written then
        match outcome with
        | .done => (true, { db := effect.db.deleteEnv, written := false })
        | .failed => (false, effect)
        | .halfway => (false, { effect with db := { effect.db with containers := ∅ } })
      else (true, effect)

/-- The loop around the effect: the snapshot it converged to last, and the one written last. -/
structure Driver where
  effect : PersistEffect
  last : Option (Option EnvState) := none
  wrote : Option (Option EnvState) := none

/-- One turn of the loop: the snapshot it extracts, and how the database takes it. -/
structure Turn where
  snapshot : Option EnvState
  outcome : Outcome := .done

/-- One turn of the loop. An unchanged snapshot is passed over, a failed one is tried again. -/
def Driver.turn (text : Text) (driver : Driver) (turn : Turn) : Driver :=
  if driver.last = some turn.snapshot then driver
  else
    match driver.effect.converge text turn.snapshot turn.outcome with
    | (true, effect) =>
        { effect
          last := some turn.snapshot
          wrote := if driver.effect.writes turn.snapshot then some turn.snapshot else driver.wrote }
    | (false, effect) => { driver with effect }

/-- The loop when the daemon starts, with the tables as they were left. -/
def start (stored : Database) : Driver where
  effect := { db := stored }

/-- The tables hold exactly the snapshot. -/
def Holds (text : Text) (db : Database) : Option EnvState → Prop
  | none => db = {}
  | some env => db.saveEnv text env = some db

/-- The tables hold exactly the snapshot that was written last. -/
def Driver.Mirrors (text : Text) (driver : Driver) : Prop :=
  ∀ snapshot, driver.wrote = some snapshot → Holds text driver.effect.db snapshot

/-- The turn deletes the containers and not the environment they are of. -/
def HalfDeletes (driver : Driver) (turn : Turn) : Prop :=
  turn.snapshot = none ∧ turn.outcome = .halfway ∧ driver.effect.written ∧ driver.last ≠ some none

/-- No deletion ends between its statements while there are containers to lose. -/
def Whole (driver : Driver) (turn : Turn) : Prop :=
  HalfDeletes driver turn → driver.effect.db.containers = ∅

section Effect

variable {text : Text}

/-- What one turn can do: nothing, a save, a deletion, or half of one. -/
theorem turn_cases (text : Text) (driver : Driver) (turn : Turn) :
    (¬HalfDeletes driver turn ∧ (driver.turn text turn).effect = driver.effect ∧
      (driver.turn text turn).wrote = driver.wrote) ∨
    (∃ env db, turn.snapshot = some env ∧ driver.effect.db.saveEnv text env = some db ∧
      driver.turn text turn =
        { effect := { db, written := true }, last := some (some env), wrote := some (some env) }) ∨
    (¬HalfDeletes driver turn ∧ driver.effect.written ∧ driver.turn text turn =
      { effect := { db := driver.effect.db.deleteEnv, written := false }
        last := some none
        wrote := some none }) ∨
    (HalfDeletes driver turn ∧ driver.turn text turn =
      { driver with
        effect := { driver.effect with db := { driver.effect.db with containers := ∅ } } }) := by
  obtain ⟨snapshot, outcome⟩ := turn
  by_cases unchanged : driver.last = some snapshot
  · refine .inl ⟨?_, by simp [Driver.turn, unchanged], by simp [Driver.turn, unchanged]⟩
    rintro ⟨rfl, -, -, changed⟩
    exact changed unchanged
  cases snapshot with
  | some env =>
      have whole : ¬HalfDeletes driver { snapshot := some env, outcome } := fun half =>
        Option.some_ne_none env half.1
      by_cases shell : uncreated env
      · refine .inl ⟨whole, ?_⟩
        simp [Driver.turn, unchanged, PersistEffect.converge, PersistEffect.writes, shell]
      · cases outcome with
        | done =>
            cases saved : driver.effect.db.saveEnv text env with
            | none =>
                refine .inl ⟨whole, ?_⟩
                simp [Driver.turn, unchanged, PersistEffect.converge, shell, saved]
            | some db =>
                refine .inr (.inl ⟨env, db, rfl, saved, ?_⟩)
                simp [Driver.turn, unchanged, PersistEffect.converge, PersistEffect.writes, shell,
                  saved]
        | failed =>
            refine .inl ⟨whole, ?_⟩
            simp [Driver.turn, unchanged, PersistEffect.converge, shell]
        | halfway =>
            refine .inl ⟨whole, ?_⟩
            simp [Driver.turn, unchanged, PersistEffect.converge, shell]
  | none =>
      by_cases written : driver.effect.written
      · cases outcome with
        | done =>
            refine .inr (.inr (.inl ⟨by simp [HalfDeletes], written, ?_⟩))
            simp [Driver.turn, unchanged, PersistEffect.converge, PersistEffect.writes, written]
        | failed =>
            refine .inl ⟨by simp [HalfDeletes], ?_⟩
            simp [Driver.turn, unchanged, PersistEffect.converge, written]
        | halfway =>
            refine .inr (.inr (.inr ⟨⟨rfl, rfl, written, unchanged⟩, ?_⟩))
            simp [Driver.turn, unchanged, PersistEffect.converge, written]
      · refine .inl ⟨fun half => written half.2.2.1, ?_⟩
        simp [Driver.turn, unchanged, PersistEffect.converge, PersistEffect.writes, written]

/-- The effect has written an environment if it says so. -/
def Driver.Sound (driver : Driver) : Prop :=
  driver.effect.written → ∃ env, driver.wrote = some (some env)

theorem Driver.Sound.turn {driver : Driver} (sound : driver.Sound) (turn : Turn) :
    (driver.turn text turn).Sound := by
  rcases turn_cases text driver turn with
    ⟨-, effect, wrote⟩ | ⟨env, db, -, -, next⟩ | ⟨-, -, next⟩ | ⟨-, next⟩
  · rw [Sound, effect, wrote]
    exact sound
  · rw [next]
    exact fun _ => ⟨env, rfl⟩
  · rw [next]
    exact fun written => by cases written
  · rw [next]
    exact sound

/-- A turn keeps the tables exact exactly if it does not leave a deletion half done. -/
theorem mirrors_turn {driver : Driver} (sound : driver.Sound) (mirrors : driver.Mirrors text)
    (turn : Turn) : (driver.turn text turn).Mirrors text ↔ Whole driver turn := by
  rcases turn_cases text driver turn with
    ⟨whole, effect, wrote⟩ | ⟨env, db, snapshot, saved, next⟩ | ⟨whole, -, next⟩ | ⟨half, next⟩
  · refine iff_of_true ?_ fun half => (whole half).elim
    rw [Driver.Mirrors, effect, wrote]
    exact mirrors
  · refine iff_of_true ?_ fun half => ?_
    · rw [next]
      rintro _ ⟨⟩
      exact saved
    · have absent := half.1
      rw [snapshot] at absent
      cases absent
  · refine iff_of_true ?_ fun half => (whole half).elim
    rw [next]
    rintro _ ⟨⟩
    rfl
  · obtain ⟨env, wrote⟩ := sound half.2.2.1
    have exact_before : driver.effect.db.saveEnv text env = some driver.effect.db := mirrors _ wrote
    rw [next]
    constructor
    · intro after _
      have exact_after := after _ wrote
      have same := Option.some.inj (exact_before.symm.trans exact_after)
      exact congrArg Database.containers same
    · intro whole snapshot written
      have empty := whole half
      have unchanged : { driver.effect.db with containers := ∅ } = driver.effect.db := by
        rw [← empty]
      rw [unchanged]
      exact mirrors snapshot written

/-- Along a history the tables hold the last snapshot written exactly if no deletion is left half
done. -/
theorem mirrors_throughout_iff (stored : Database) (history : List Turn) :
    (∀ front back, history = front ++ back →
      (Execution.run (Driver.turn text) (start stored) front).Mirrors text) ↔
    Execution.Along (Driver.turn text) Whole (start stored) history := by
  have sound (front : List Turn) : (Execution.run (Driver.turn text) (start stored) front).Sound :=
    Execution.run_always (Driver.turn text) Driver.Sound (fun _ turn sound => sound.turn turn)
      (fun written => by cases written) front
  have exact_turn (driver : Driver) (turn : Turn)
      (holds : driver.Sound ∧ driver.Mirrors text) :
      (driver.turn text turn).Sound ∧ (driver.turn text turn).Mirrors text ↔ Whole driver turn := by
    rw [and_iff_right (holds.1.turn turn)]
    exact mirrors_turn holds.1 holds.2 turn
  have initial : (start stored).Sound ∧ (start stored).Mirrors text :=
    ⟨sound [], fun _ wrote => by cases wrote⟩
  rw [← Execution.invariant_throughout_iff (Driver.turn text) _ exact_turn initial]
  exact forall_congr' fun front => forall_congr' fun back => forall_congr' fun split =>
    (and_iff_right (sound front)).symm

/-- A converge that succeeds does to the tables what it does to the store they stand for. -/
theorem converge_refines {effect : PersistEffect} {store : Store} {snapshot : Option EnvState}
    (holds : Holds text effect.db store.env) (written : effect.written = store.written)
    (fits : ∀ env, snapshot = some env → uncreated env ∨ Converge.keyed env) :
    let next := effect.converge text snapshot .done
    next.1 ∧ Holds text next.2.db (store.converge snapshot).env ∧
      next.2.written = (store.converge snapshot).written := by
  cases snapshot with
  | some env =>
      by_cases shell : uncreated env
      · simp [PersistEffect.converge, Store.converge, shell, holds, written]
      · have saved := saveEnv_of_keyed text ((fits env rfl).resolve_left shell) effect.db
        simp only [PersistEffect.converge, Store.converge, shell, saved]
        exact ⟨rfl, saved, rfl⟩
  | none =>
      by_cases wrote : store.written
      · simp [PersistEffect.converge, Store.converge, written, wrote, Holds, Database.deleteEnv]
      · simp [PersistEffect.converge, Store.converge, written, wrote, holds]

end Effect

/-! ## The schema -/

/-- A database file: its version and its tables, with rows of any kind. -/
structure File (ρ : Type) where
  version : Int
  tables : OrderedMap String (List ρ)

/-- The tables of the current schema, except the one that is added without a version. -/
def createTables : List String := ["owner", "env", "containers", "logs", "events"]

section Schema

variable {ρ : Type}

/-- Drop every table, and create those of the current schema. -/
def recreate (file : File ρ) : File ρ where
  version := 3
  tables := createTables.foldl (fun tables name => tables.insert name [])
    (file.tables.toList.foldl (fun tables table => tables.erase table.1) file.tables)

/-- `init` -/
def init (file : File ρ) : File ρ :=
  let current := if file.version ≠ 3 then recreate file else file
  { current with
    tables :=
      if current.tables.contains "seeds" then current.tables
      else current.tables.insert "seeds" [] }

/-- What a seed has already filled. -/
def recorded (file : File ρ) : List ρ := (file.tables["seeds"]?).getD []

/-- Opening the file keeps the recorded seeds and leaves every other table empty. -/
structure Upgraded (file : File ρ) : Prop where
  seeds : (init file).tables["seeds"]? = some (recorded file)
  others : ∀ (name : String) (rows : List ρ), name ≠ "seeds" →
    (init file).tables[name]? = some rows → rows = []

/-- A file of another version keeps nothing. -/
theorem init_of_other (file : File ρ) (other : file.version ≠ 3) :
    (init file).version = 3 ∧ (init file).tables["seeds"]? = some [] ∧
      ∀ (name : String) (rows : List ρ), (init file).tables[name]? = some rows → rows = [] := by
  have dropped : file.tables.toList.foldl (fun tables table => tables.erase table.1) file.tables =
      ∅ := OrderedMap.foldl_erase_toList file.tables
  have unseeded : (recreate file).tables["seeds"]? = none := by
    simp [recreate, createTables, dropped]
  have added : (init file).tables = (recreate file).tables.insert "seeds" [] := by
    simp [init, other, ExtTreeMap.contains_eq_isSome_getElem?, unseeded]
  refine ⟨by simp [init, other, recreate], by simp [added], fun name rows found => ?_⟩
  simp only [added, recreate, createTables, dropped, List.foldl_cons, List.foldl_nil,
    ExtTreeMap.getElem?_insert, ExtTreeMap.getElem?_empty] at found
  grind

/-- A file of another version is upgraded exactly if no seed was recorded in it. -/
theorem upgraded_iff {file : File ρ} (other : file.version ≠ 3) :
    Upgraded file ↔ recorded file = [] := by
  obtain ⟨-, seeds, empty⟩ := init_of_other file other
  constructor
  · intro upgraded
    have kept := upgraded.seeds
    rw [seeds] at kept
    exact (Option.some.inj kept).symm
  · intro none
    exact ⟨by rw [seeds, none], fun name rows _ found => empty name rows found⟩

end Schema

/-! ## What is persisted comes back -/

/-- An environment that is saved reads back but for its marks, its volumes and what is derived
again from the graph. -/
def ComesBack (text : Text) (stored : Database) (env : EnvState) : Prop :=
  (stored.saveEnv text env).bind (Database.loadEnv text) = some
    { env with
      pendingCreate := none
      volumes := ∅
      containers := env.containers.map fun _ container => restored container }

/-- Throughout a history the tables hold exactly the last snapshot written. -/
def HoldsLast (text : Text) (stored : Database) (history : List Turn) : Prop :=
  ∀ front back, history = front ++ back →
    (Execution.run (Driver.turn text) (start stored) front).Mirrors text

/-- An environment comes back, a history leaves its last snapshot, and an upgrade keeps the seeds
exactly if no deletion is left half done and there are no seeds to keep. -/
theorem persisted_iff {ρ : Type} {text : Text} {env : EnvState} (ids : Converge.keyed env)
    (reads : ReadsBack text env) (stored : Database) (history : List Turn) {file : File ρ}
    (older : file.version < 3) :
    ComesBack text stored env ∧ HoldsLast text stored history ∧ Upgraded file ↔
      Execution.Along (Driver.turn text) Whole (start stored) history ∧ recorded file = [] := by
  have back : ComesBack text stored env := by
    rw [ComesBack, loadEnv_saveEnv ids reads, loadEnv_of_keyed ids]
  rw [and_iff_right back, HoldsLast, mirrors_throughout_iff, upgraded_iff (by omega)]

/-- The text of the two columns of one container. -/
def columnText (container : ContainerInfo) (desired observed : String) : Text where
  render
    | .obj (("running", _) :: _) => desired
    | _ => observed
  parse raw :=
    if raw = desired then some (containerDesired.write container.desired)
    else if raw = observed then some (containerObserved.write container.observed)
    else none

theorem columnText_reads (container : ContainerInfo) {desired observed : String}
    (different : observed ≠ desired) :
    let text := columnText container desired observed
    text.parse (text.render (containerDesired.write container.desired)) =
        some (containerDesired.write container.desired) ∧
      text.parse (text.render (containerObserved.write container.observed)) =
        some (containerObserved.write container.observed) := by
  intro text
  have first : text.render (containerDesired.write container.desired) = desired := rfl
  have second : text.render (containerObserved.write container.observed) = observed := rfl
  rw [first, second]
  exact ⟨if_pos rfl, (if_neg different).trans (if_pos rfl)⟩

/-- A container whose node is gone from the graph. -/
def orphan : ContainerInfo where
  nodeId := "db"
  desired := { running := true, containerName := "db-1" }
  observed := { status := "running", sync := .orphaned }

/-- Its columns as JSON text. -/
def orphanText : Text :=
  columnText orphan
    ("\x7b\"running\":true,\"container_name\":\"db-1\",\"domain\":\"\",\"raw_domain\":\"\"," ++
      "\"routes\":[],\"additional_hosts\":[],\"status_port\":null,\"config_hash\":\"\"," ++
      "\"source\":null,\"terminating\":false,\"debug_wait\":false\x7d")
    ("\x7b\"status\":\"running\",\"published_port\":null,\"ports\":\x7b\x7d," ++
      "\"sync\":\"orphaned\",\"exit_code\":null,\"interrupted\":false,\"unseen\":false\x7d")

def orphaned : EnvState where
  network := "fghj-demo"
  containers := (∅ : OrderedMap String ContainerInfo).insert "db" orphan

/-- A file of the version before that holds an environment. -/
def olderFile : File String where
  version := 2
  tables := (∅ : OrderedMap String (List String))
    |>.insert "env" ["fghj-demo"]
    |>.insert "containers" ["db", "web"]
    |>.insert "seeds" []

theorem orphan_persisted :
    ComesBack orphanText {} orphaned ∧
      HoldsLast orphanText {} [{ snapshot := some orphaned }] ∧ Upgraded olderFile := by
  refine (persisted_iff (by decide) ?_ {} _ (by decide)).mpr ⟨⟨?_, trivial⟩, by decide⟩
  · intro nodeId container found
    obtain ⟨-, rfl⟩ : "db" = nodeId ∧ orphan = container := by simpa [orphaned] using found
    exact columnText_reads orphan (by decide)
  · intro half
    cases half.1

/-- A file left by the version before, with one seed recorded in it, loses the seed. -/
theorem seed_lost : ¬∀ file : File String, file.version < 3 → Upgraded file := by
  intro upgraded
  have kept := (upgraded
    { version := 2, tables := (∅ : OrderedMap String (List String)).insert "seeds" ["db"] }
    (by decide)).seeds
  rw [(init_of_other _ (by decide)).2.1] at kept
  exact absurd kept (by decide)

end Persistence
end Fghj
