import Fghj.Uniqueness

/-!
# Where derived names meet

Docker knows the containers and volumes of all workspaces by name alone. A container's name puts
two flattened labels around a fixed word, so it can be read in two ways when a workspace's own label
holds that word; a volume's name puts the volume's words in front of the node's, so the last of the
one can pass for the first of the other. These are the only ways in which two names meet.
-/

namespace Fghj

open Std Orchestrator

namespace Resolver

theorem Accepted.nodup_labels {toLowercase : String → String} {graph : Graph}
    (accepted : Accepted toLowercase graph) :
    (graph.nodes.map fun node => sanitizeLabel node.id).Nodup :=
  nodup_labels_of_checkContainerNames accepted.names_pass.2

/-- Two nodes of an accepted graph whose ids are flattened alike have one id. -/
theorem Accepted.eq_of_label_eq {toLowercase : String → String} {graph : Graph}
    (accepted : Accepted toLowercase graph) {node other : Node} (member : node ∈ graph.nodes)
    (listed : other ∈ graph.nodes) (same : sanitizeLabel node.id = sanitizeLabel other.id) :
    node = other :=
  List.inj_on_of_nodup_map accepted.nodup_labels member listed same

end Resolver

/-! ## Containers -/

/-- What stands between the hyphens of a flattened text. -/
def segments (text : String) : List (List Char) := (sanitizeLabel text).toList.splitOn '-'

theorem splitOn_hyphen_inj {text other : List Char} :
    text.splitOn '-' = other.splitOn '-' ↔ text = other := by
  constructor
  · intro same
    have joined := congrArg (['-'].intercalate ·) same
    simpa using joined
  · intro same
    rw [same]

theorem segments_eq_iff (text other : String) :
    segments text = segments other ↔ sanitizeLabel text = sanitizeLabel other := by
  rw [segments, segments, splitOn_hyphen_inj, String.toList_inj]

theorem splitOn_containerName (workspaceName nodeId : String) :
    (containerName workspaceName nodeId).toList.splitOn '-' =
      "fghj".toList :: segments workspaceName ++ "default".toList :: segments nodeId := by
  have whole : (containerName workspaceName nodeId).toList =
      "fghj".toList ++ '-' :: ((sanitizeLabel workspaceName).toList ++
        '-' :: ("default".toList ++ '-' :: (sanitizeLabel nodeId).toList)) := by
    simp [containerName]
  rw [whole, List.splitOn_append_cons_self_of_not_mem (by decide), List.splitOn_append_cons_self,
    List.splitOn_append_cons_self_of_not_mem (by decide)]
  rfl

theorem containerName_eq_iff (workspaceName nodeId otherWorkspace otherId : String) :
    containerName workspaceName nodeId = containerName otherWorkspace otherId ↔
      segments workspaceName ++ "default".toList :: segments nodeId =
        segments otherWorkspace ++ "default".toList :: segments otherId := by
  rw [← String.toList_inj, ← splitOn_hyphen_inj, splitOn_containerName, splitOn_containerName,
    List.cons_append, List.cons_append, List.cons.injEq, and_iff_right rfl]

/-- The sidecar is named like a container of a node `sidecar`. -/
theorem sidecarName_eq (workspaceName : String) :
    sidecarName workspaceName = containerName workspaceName "sidecar" := by
  have fixed : sanitizeLabel "sidecar" = "sidecar" := by decide
  rw [← String.toList_inj, sidecarName, containerName, fixed]
  simp

theorem networkName_inj {workspaceName other : String}
    (same : networkName workspaceName = networkName other) :
    sanitizeLabel workspaceName = sanitizeLabel other := by
  have chars := congrArg String.toList same
  simp only [networkName, String.toList_append] at chars
  exact String.toList_inj.mp (List.append_cancel_left (List.append_cancel_right chars))

/-- The label of one workspace is that of the other, then `default`, then some words, and the node's
id is flattened to those words, then `default`, then the other id. -/
def Shifted (workspaceName nodeId otherWorkspace otherId : String) : Prop :=
  ∃ middle, segments otherWorkspace = segments workspaceName ++ "default".toList :: middle ∧
    segments nodeId = middle ++ "default".toList :: segments otherId

theorem Shifted.label_ne {workspaceName nodeId otherWorkspace otherId : String}
    (shifted : Shifted workspaceName nodeId otherWorkspace otherId) :
    sanitizeLabel workspaceName ≠ sanitizeLabel otherWorkspace := by
  intro same
  obtain ⟨middle, longer, -⟩ := shifted
  rw [(segments_eq_iff _ _).mpr same] at longer
  have lengths := congrArg List.length longer
  rw [List.length_append, List.length_cons] at lengths
  omega

/-- Names of different workspaces meet exactly when one is a shift of the other. -/
theorem containerName_eq_iff_shifted {workspaceName otherWorkspace : String}
    (apart : sanitizeLabel workspaceName ≠ sanitizeLabel otherWorkspace) (nodeId otherId : String) :
    containerName workspaceName nodeId = containerName otherWorkspace otherId ↔
      Shifted workspaceName nodeId otherWorkspace otherId ∨
        Shifted otherWorkspace otherId workspaceName nodeId := by
  rw [containerName_eq_iff]
  constructor
  · intro same
    have different : segments workspaceName ≠ segments otherWorkspace :=
      fun equal => apart ((segments_eq_iff _ _).mp equal)
    rcases List.append_eq_append_iff.mp same with
      ⟨middle, longer, rest⟩ | ⟨middle, longer, rest⟩
    · left
      cases middle with
      | nil => exact (different (by simpa using longer.symm)).elim
      | cons first middle =>
          rw [List.cons_append, List.cons.injEq] at rest
          obtain ⟨rfl, tail⟩ := rest
          exact ⟨middle, longer, tail⟩
    · right
      cases middle with
      | nil => exact (different (by simpa using longer)).elim
      | cons first middle =>
          rw [List.cons_append, List.cons.injEq] at rest
          obtain ⟨rfl, tail⟩ := rest
          exact ⟨middle, longer, tail⟩
  · rintro (⟨middle, longer, tail⟩ | ⟨middle, longer, tail⟩)
    · rw [longer, tail]
      simp
    · rw [longer, tail]
      simp

theorem containerName_eq_iff_label (workspaceName nodeId otherId : String) :
    containerName workspaceName nodeId = containerName workspaceName otherId ↔
      sanitizeLabel nodeId = sanitizeLabel otherId := by
  rw [containerName_eq_iff, List.append_cancel_left_eq, List.cons.injEq, and_iff_right rfl,
    segments_eq_iff]

/-- No container of any workspace is named like another one or like a sidecar, and no two workspaces
have one network. -/
structure NamesApart (graphs : List Graph) : Prop where
  containers : ∀ graph ∈ graphs, ∀ node ∈ graph.nodes, ∀ other ∈ graphs, ∀ rival ∈ other.nodes,
    containerName graph.workspaceName node.id = containerName other.workspaceName rival.id →
      graph = other ∧ node.id = rival.id
  sidecars : ∀ graph ∈ graphs, ∀ node ∈ graph.nodes, ∀ other ∈ graphs,
    containerName graph.workspaceName node.id ≠ sidecarName other.workspaceName
  networks : ∀ graph ∈ graphs, ∀ other ∈ graphs,
    networkName graph.workspaceName = networkName other.workspaceName → graph = other

/-- No node's id is flattened to `sidecar`, and none is a shift of an id, or of the sidecar, of
another workspace. -/
structure Unshifted (graphs : List Graph) : Prop where
  sidecars : ∀ graph ∈ graphs, ∀ node ∈ graph.nodes, sanitizeLabel node.id ≠ "sidecar"
  shifts : ∀ graph ∈ graphs, ∀ node ∈ graph.nodes, ∀ other ∈ graphs,
    ∀ id ∈ "sidecar" :: other.nodes.map Node.id,
      ¬Shifted graph.workspaceName node.id other.workspaceName id

/-- Nothing is a shift of the sidecar of a workspace with a longer label. -/
theorem not_shifted_sidecar (workspaceName otherWorkspace otherId : String) :
    ¬Shifted workspaceName "sidecar" otherWorkspace otherId := by
  rintro ⟨middle, -, tail⟩
  have single : segments "sidecar" = ["sidecar".toList] := by decide
  rw [single] at tail
  cases middle with
  | nil =>
      rw [List.nil_append, List.cons.injEq] at tail
      exact absurd tail.1 (by decide)
  | cons first middle => simp at tail

section Names

variable {toLowercase : String → String} {graphs : List Graph}
  (accepted : ∀ graph ∈ graphs, Resolver.Accepted toLowercase graph)
  (labels : (graphs.map fun graph => sanitizeLabel graph.workspaceName).Nodup)

include labels

theorem eq_of_workspace_label {graph other : Graph} (member : graph ∈ graphs)
    (listed : other ∈ graphs)
    (same : sanitizeLabel graph.workspaceName = sanitizeLabel other.workspaceName) :
    graph = other :=
  List.inj_on_of_nodup_map labels member listed same

include accepted

/-- The names of wired workspaces stay apart exactly when none is a shift of another. -/
theorem container_names_apart_iff : NamesApart graphs ↔ Unshifted graphs := by
  have fixed : sanitizeLabel "sidecar" = "sidecar" := by decide +kernel
  constructor
  · intro apart
    constructor
    · intro graph member node inside same
      apply apart.sidecars graph member node inside graph member
      rw [sidecarName_eq, containerName_eq_iff_label, same, fixed]
    · intro graph member node inside other listed id named shifted
      have meets := (containerName_eq_iff_shifted shifted.label_ne node.id id).mpr (.inl shifted)
      rcases List.mem_cons.mp named with rfl | ofNode
      · rw [← sidecarName_eq] at meets
        exact apart.sidecars graph member node inside other listed meets
      · obtain ⟨rival, present, rfl⟩ := List.mem_map.mp ofNode
        obtain ⟨rfl, -⟩ := apart.containers graph member node inside other listed rival
          present meets
        exact shifted.label_ne rfl
  · intro unshifted
    constructor
    · intro graph member node inside other listed rival present meets
      by_cases same : sanitizeLabel graph.workspaceName = sanitizeLabel other.workspaceName
      · obtain rfl := eq_of_workspace_label labels member listed same
        rw [containerName_eq_iff_label] at meets
        rw [(accepted graph member).eq_of_label_eq inside present meets]
        exact ⟨rfl, rfl⟩
      · rcases (containerName_eq_iff_shifted same _ _).mp meets with forth | back
        · exact (unshifted.shifts graph member node inside other listed rival.id
            (List.mem_cons_of_mem _ (List.mem_map_of_mem present)) forth).elim
        · exact (unshifted.shifts other listed rival present graph member node.id
            (List.mem_cons_of_mem _ (List.mem_map_of_mem inside)) back).elim
    · intro graph member node inside other listed meets
      rw [sidecarName_eq] at meets
      by_cases same : sanitizeLabel graph.workspaceName = sanitizeLabel other.workspaceName
      · obtain rfl := eq_of_workspace_label labels member listed same
        rw [containerName_eq_iff_label, fixed] at meets
        exact unshifted.sidecars graph member node inside meets
      · rcases (containerName_eq_iff_shifted same _ _).mp meets with forth | back
        · exact unshifted.shifts graph member node inside other listed "sidecar"
            List.mem_cons_self forth
        · exact not_shifted_sidecar _ _ _ back
    · intro graph member other listed same
      exact eq_of_workspace_label labels member listed (networkName_inj same)

end Names

theorem shifted_iff (workspaceName nodeId otherWorkspace otherId : String) :
    Shifted workspaceName nodeId otherWorkspace otherId ↔
      let middle := (segments otherWorkspace).drop ((segments workspaceName).length + 1)
      segments otherWorkspace = segments workspaceName ++ "default".toList :: middle ∧
        segments nodeId = middle ++ "default".toList :: segments otherId := by
  constructor
  · rintro ⟨middle, longer, tail⟩
    have rest : (segments otherWorkspace).drop ((segments workspaceName).length + 1) = middle := by
      rw [longer, ← List.drop_drop, List.drop_left]
      rfl
    rw [rest]
    exact ⟨longer, tail⟩
  · exact fun found => ⟨_, found⟩

instance (workspaceName nodeId otherWorkspace otherId : String) :
    Decidable (Shifted workspaceName nodeId otherWorkspace otherId) :=
  decidable_of_iff _ (shifted_iff workspaceName nodeId otherWorkspace otherId).symm

/-- A workspace of one repo `shop` with one service of this name. -/
def shopWith (workspaceName service : String) : Graph :=
  Resolver.resolveWorkspace id workspaceName
    ((∅ : OrderedMap String ComponentConfig).insert "shop"
      { services := (∅ : OrderedMap String ServiceConfig).insert service
          { image := some "nginx" } })
    ∅

theorem accepted_shopWith {workspaceName service : String}
    (unblocked : (shopWith workspaceName service).blockingWarnings = []) :
    Resolver.Accepted id (shopWith workspaceName service) :=
  ⟨⟨_, _, rfl⟩, unblocked⟩

theorem names_apart_two_shops : NamesApart [shopWith "a" "web", shopWith "a-default" "web"] := by
  have first : Resolver.Accepted id (shopWith "a" "web") := accepted_shopWith (by decide +kernel)
  have second : Resolver.Accepted id (shopWith "a-default" "web") :=
    accepted_shopWith (by decide +kernel)
  apply (container_names_apart_iff (first.pair second) (by decide +kernel)).mpr
  exact ⟨by decide +kernel, by decide +kernel⟩

/-- The service `default-web` of the workspace `a` and the service `web` of the workspace
`a-default` get one container name. -/
theorem container_names_meet :
    ¬∀ graphs : List Graph, (∀ graph ∈ graphs, Resolver.Accepted id graph) →
      (graphs.map fun graph => sanitizeLabel graph.workspaceName).Nodup → NamesApart graphs := by
  intro claim
  have first : Resolver.Accepted id (shopWith "a" "default-web") :=
    accepted_shopWith (by decide +kernel)
  have second : Resolver.Accepted id (shopWith "a-default" "web") :=
    accepted_shopWith (by decide +kernel)
  have apart := claim _ (first.pair second) (by decide +kernel)
  have meet : ∃ node ∈ (shopWith "a" "default-web").nodes,
      ∃ rival ∈ (shopWith "a-default" "web").nodes,
      containerName "a" node.id = containerName "a-default" rival.id := by decide +kernel
  obtain ⟨node, inside, rival, present, meets⟩ := meet
  obtain ⟨same, -⟩ := apart.containers _ (by simp) node inside _ (by simp) rival present meets
  exact absurd (congrArg Graph.workspaceName same) (by decide +kernel)

/-! ## Volumes -/

/-- A named volume as a node mounts it; a shared one has no owner. -/
structure NamedMount where
  name : String
  owner : Option String
  deriving DecidableEq

/-- The named volumes the nodes of a graph mount. -/
def namedMounts (graph : Graph) : List NamedMount :=
  graph.nodes.flatMap fun node => node.volumes.filterMap fun mount =>
    match mount with
    | .bind .. => none
    | .named name _ _ shared => some { name, owner := if shared then none else some node.id }

namespace NamedMount

/-- The Docker volume of a mount. -/
def volumeName (mount : NamedMount) (workspaceName : String) : String :=
  deriveVolumeName mount.name mount.owner workspaceName

/-- The words of the owner's id; none for a shared volume. -/
def ownerWords (mount : NamedMount) : List (List Char) :=
  match mount.owner with
  | some owner => labelWords owner
  | none => []

/-- The mounts are of one volume: both shared, or both of one node, under one name. -/
def SameVolume (mount other : NamedMount) : Prop :=
  (mount.owner = none ∧ other.owner = none ∧ mount.name = other.name) ∨
    ∃ nodeId, mount.owner = some nodeId ∧ other.owner = some nodeId ∧ mount.name = other.name

theorem sameVolume_iff (mount other : NamedMount) : mount.SameVolume other ↔ mount = other := by
  rcases mount with ⟨name, owner⟩
  rcases other with ⟨otherName, otherOwner⟩
  cases owner <;> cases otherOwner <;> simp [SameVolume, and_comm, eq_comm]

/-- A volume's name is known by the words of its own name, its owner and its workspace. -/
theorem volumeName_eq_iff (mount other : NamedMount) (workspaceName otherWorkspace : String) :
    mount.volumeName workspaceName = other.volumeName otherWorkspace ↔
      labelWords mount.name ++ (mount.ownerWords ++ labelWords workspaceName) =
        labelWords other.name ++ (other.ownerWords ++ labelWords otherWorkspace) := by
  have words (key workspaceName : String) : labelWords (deriveDomain key workspaceName .http) =
      labelWords key ++ labelWords workspaceName ++ labelWords "fghj.internal" := by
    rw [deriveDomain, labelWords_dot, labelWords_dot, labelWords_sanitizeLabel]
    rfl
  have key (mount : NamedMount) : ∃ key,
      labelWords key = labelWords mount.name ++ mount.ownerWords ∧
      ∀ workspaceName, mount.volumeName workspaceName =
        "fghj-vol-" ++ sanitizeLabel (deriveDomain key workspaceName .http) := by
    rcases mount with ⟨name, owner⟩
    cases owner with
    | none => exact ⟨name, by simp [ownerWords], fun _ => rfl⟩
    | some owner => exact ⟨name ++ "." ++ owner, labelWords_dot name owner, fun _ => rfl⟩
  obtain ⟨first, first_eq, firstName⟩ := key mount
  obtain ⟨second, second_eq, secondName⟩ := key other
  rw [firstName, secondName, String.append_right_inj, sanitizeLabel_eq_iff, words, words, first_eq,
    second_eq, List.append_cancel_right_eq, List.append_assoc, List.append_assoc]

end NamedMount

/-- The last words of the one name are the first words of the other's scope. -/
def Slides (name : String) (scope : List (List Char)) (otherName : String)
    (otherScope : List (List Char)) : Prop :=
  ∃ moved, labelWords name = labelWords otherName ++ moved ∧ otherScope = moved ++ scope

theorem append_eq_append_iff_slides (name otherName : String)
    (scope otherScope : List (List Char)) :
    labelWords name ++ scope = labelWords otherName ++ otherScope ↔
      Slides name scope otherName otherScope ∨ Slides otherName otherScope name scope := by
  rw [List.append_eq_append_iff, or_comm]
  rfl

/-- Two mounts in one workspace have one Docker volume exactly when they are of one volume, and no
two workspaces have one. -/
structure VolumesApart (graphs : List Graph) : Prop where
  inside : ∀ graph ∈ graphs, ∀ mount ∈ namedMounts graph, ∀ other ∈ namedMounts graph,
    mount.volumeName graph.workspaceName = other.volumeName graph.workspaceName ↔
      mount.SameVolume other
  across : ∀ graph ∈ graphs, ∀ other ∈ graphs,
    sanitizeLabel graph.workspaceName ≠ sanitizeLabel other.workspaceName →
    ∀ mount ∈ namedMounts graph, ∀ rival ∈ namedMounts other,
      mount.volumeName graph.workspaceName ≠ rival.volumeName other.workspaceName

/-- No volume's name slides into the id of the node, or the label of the workspace, of another. -/
structure Unslid (graphs : List Graph) : Prop where
  inside : ∀ graph ∈ graphs, ∀ mount ∈ namedMounts graph, ∀ other ∈ namedMounts graph,
    mount ≠ other → ¬Slides mount.name mount.ownerWords other.name other.ownerWords
  across : ∀ graph ∈ graphs, ∀ other ∈ graphs,
    sanitizeLabel graph.workspaceName ≠ sanitizeLabel other.workspaceName →
    ∀ mount ∈ namedMounts graph, ∀ rival ∈ namedMounts other,
      ¬Slides mount.name (mount.ownerWords ++ labelWords graph.workspaceName) rival.name
        (rival.ownerWords ++ labelWords other.workspaceName)

/-- Volumes stay apart exactly when no name slides into what stands behind another. -/
theorem volumes_apart_iff (graphs : List Graph) : VolumesApart graphs ↔ Unslid graphs := by
  constructor
  · intro apart
    constructor
    · intro graph member mount listed other present different slides
      have meets : mount.volumeName graph.workspaceName = other.volumeName graph.workspaceName := by
        rw [NamedMount.volumeName_eq_iff, ← List.append_assoc, ← List.append_assoc,
          List.append_cancel_right_eq, append_eq_append_iff_slides]
        exact .inl slides
      have same := (apart.inside graph member mount listed other present).mp meets
      exact different ((NamedMount.sameVolume_iff mount other).mp same)
    · intro graph member other listed different mount inside rival present slides
      apply apart.across graph member other listed different mount inside rival present
      rw [NamedMount.volumeName_eq_iff, append_eq_append_iff_slides]
      exact .inl slides
  · intro unslid
    constructor
    · intro graph member mount listed other present
      rw [NamedMount.sameVolume_iff, NamedMount.volumeName_eq_iff, ← List.append_assoc,
        ← List.append_assoc, List.append_cancel_right_eq, append_eq_append_iff_slides]
      constructor
      · intro slides
        by_contra different
        rcases slides with forth | back
        · exact unslid.inside graph member mount listed other present different forth
        · exact unslid.inside graph member other present mount listed (Ne.symm different) back
      · rintro rfl
        exact .inl ⟨[], by simp, by simp⟩
    · intro graph member other listed different mount inside rival present meets
      rw [NamedMount.volumeName_eq_iff, append_eq_append_iff_slides] at meets
      rcases meets with forth | back
      · exact unslid.across graph member other listed different mount inside rival present forth
      · exact unslid.across other listed graph member (Ne.symm different) rival present mount inside
          back

/-- Two stores of one repo, each with a volume of its own. -/
def twoStores : Graph :=
  Resolver.resolveWorkspace id "market"
    ((∅ : OrderedMap String ComponentConfig).insert "shop"
      { services := ((∅ : OrderedMap String ServiceConfig).insert "db"
            { image := some "postgres"
              volumes := [.named "data-pg" "/var/lib/postgresql/data"] }).insert "pg-db"
            { image := some "postgres"
              volumes := [.named "data" "/var/lib/postgresql/data"] } })
    ∅

/-- The two stores get one data directory. -/
theorem volumes_meet :
    ¬∀ graphs : List Graph, (∀ graph ∈ graphs, Resolver.Accepted id graph) →
      VolumesApart graphs := by
  intro claim
  have unblocked : twoStores.blockingWarnings = [] := by decide +kernel
  have accepted : ∀ graph ∈ [twoStores], Resolver.Accepted id graph := by
    intro graph member
    obtain rfl := List.mem_singleton.mp member
    exact ⟨⟨_, _, rfl⟩, unblocked⟩
  have apart := (claim _ accepted).inside twoStores (List.mem_singleton_self _)
  have mounts : namedMounts twoStores =
      [{ name := "data-pg", owner := some "db.shop" },
        { name := "data", owner := some "pg-db.shop" }] := by
    decide +kernel
  rw [mounts] at apart
  have same := (apart _ (by simp) { name := "data", owner := some "pg-db.shop" } (by simp)).mp
    (by decide +kernel : NamedMount.volumeName { name := "data-pg", owner := some "db.shop" }
      "market" = _)
  rw [NamedMount.sameVolume_iff] at same
  exact absurd same (by decide)

end Fghj
