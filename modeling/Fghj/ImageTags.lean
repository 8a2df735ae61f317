import Fghj.Collisions
import Fghj.Library.Execution
import Fghj.Library.Slots

/-!
# Built images

A start of a built node builds its image under a tag and then creates the container from that tag.
The tag is made of the node's id and branch, Docker has one store of tags for all workspaces, and
the lock a start holds is its workspace's own. So a start gets the image it built in every
interleaving exactly when no two workspaces build one tag.
-/

namespace Fghj
namespace ImageTags

open Std Resolver

/-- The tag a built node's image gets; there is nothing to build from without a path. -/
def imageTag (node : Node) : Option String :=
  node.localPath.bind fun _ => node.build.map fun source =>
    let branch :=
      match source with
      | some source => source.reference.getD "default"
      | none => node.branch.getD "local"
    "fghj/" ++ sanitizeLabel node.id ++ ":" ++ sanitizeLabel branch

/-- What was built: by which start, of which node, from which checkout. -/
structure Image where
  start : Nat
  workspace : Nat
  nodeId : String
  source : Option ContainerSource
  deriving DecidableEq

inductive Phase where
  /-- The start holds the lock of its node. -/
  | locked
  | built
  /-- The container was created from what the tag stood for. -/
  | created (image : Option Image)
  | failed
  deriving DecidableEq

/-- One start of a node of the workspace at this place. -/
structure Start where
  workspace : Nat
  node : Node
  phase : Phase := .locked

def Start.active (start : Start) : Bool := start.phase = .locked || start.phase = .built

/-- Docker's tags and all starts so far, by their numbers. -/
structure Machine where
  images : OrderedMap String Image := ∅
  starts : List Start := []

inductive Event where
  /-- A start asks for the lock of a node, named by the places of its workspace and itself. -/
  | began (workspace node : Nat)
  | built (start : Nat)
  | created (start : Nat)
  | failed (start : Nat)

/-- The image a start builds from its node's own checkout. -/
def ownImage (number : Nat) (start : Start) : Image where
  start := number
  workspace := start.workspace
  nodeId := start.node.id
  source := start.node.buildCheckout

def Machine.locked (machine : Machine) (workspace : Nat) (nodeId : String) : Bool :=
  machine.starts.any fun start =>
    start.active && start.workspace == workspace && start.node.id == nodeId

def Machine.setPhase (machine : Machine) (number : Nat) (phase : Phase) : Machine :=
  { machine with starts := machine.starts.modify number fun start => { start with phase } }

/-- What one event does; a start that is not that far stays where it is. -/
def step (graphs : List Graph) (machine : Machine) : Event → Machine
  | .began workspace place =>
      match (graphs[workspace]?).bind fun graph => graph.nodes[place]? with
      | none => machine
      | some node =>
          if (imageTag node).isNone || machine.locked workspace node.id then machine
          else { machine with starts := machine.starts ++ [{ workspace, node }] }
  | .built number =>
      match machine.starts[number]? with
      | none => machine
      | some start =>
          match start.phase, imageTag start.node with
          | .locked, some tag =>
              { machine.setPhase number .built with
                images := machine.images.insert tag (ownImage number start) }
          | _, _ => machine
  | .created number =>
      match machine.starts[number]? with
      | none => machine
      | some start =>
          match start.phase, imageTag start.node with
          | .built, some tag => machine.setPhase number (.created machine.images[tag]?)
          | _, _ => machine
  | .failed number =>
      match machine.starts[number]? with
      | none => machine
      | some start => if start.active then machine.setPhase number .failed else machine

/-- Every container was created from the image its own start built. -/
def OwnImages (machine : Machine) : Prop :=
  ∀ number start image, machine.starts[number]? = some start → start.phase = .created image →
    image = some (ownImage number start)

/-- No two workspaces build one tag. -/
def TagsApart (graphs : List Graph) : Prop :=
  graphs.Pairwise fun graph rivals => ∀ node ∈ graph.nodes, ∀ rival ∈ rivals.nodes,
    (imageTag node).isSome → imageTag node ≠ imageTag rival

instance (graphs : List Graph) : Decidable (TagsApart graphs) :=
  inferInstanceAs (Decidable (List.Pairwise _ graphs))

theorem tagsApart_iff (graphs : List Graph) :
    TagsApart graphs ↔ ∀ (place other : Nat) (graph rivals : Graph), graphs[place]? = some graph →
      graphs[other]? = some rivals → place ≠ other → ∀ node ∈ graph.nodes,
      ∀ rival ∈ rivals.nodes, ∀ tag, imageTag node = some tag → imageTag rival ≠ some tag := by
  rw [TagsApart, List.pairwise_iff_getElem]
  constructor
  · intro apart place other graph rivals found held different node member rival listed tag tagged
      same
    obtain ⟨inside, rfl⟩ := List.getElem?_eq_some_iff.mp found
    obtain ⟨present, rfl⟩ := List.getElem?_eq_some_iff.mp held
    rcases Nat.lt_or_gt_of_ne different with before | after
    · exact apart place other inside present before node member rival listed (by simp [tagged])
        (tagged.trans same.symm)
    · exact apart other place present inside after rival listed node member (by simp [same])
        (same.trans tagged.symm)
  · intro apart place other inside present before node member rival listed built same
    obtain ⟨tag, tagged⟩ := Option.isSome_iff_exists.mp built
    exact apart place other _ _ (List.getElem?_eq_getElem inside) (List.getElem?_eq_getElem present)
      (Nat.ne_of_lt before) node member rival listed tag tagged (same.symm.trans tagged)

/-! ## Tags of one workspace -/

theorem mem_sanitizeLabel {text : String} {char : Char}
    (member : char ∈ (sanitizeLabel text).toList) : char = '-' ∨ char.isAlphanum := by
  rw [toList_sanitizeLabel] at member
  rcases Words.mem_joined member with hyphen | ⟨word, listed, inside⟩
  · exact .inl hyphen
  · exact .inr (Words.inWord_of_mem_words listed char inside)

theorem colon_not_mem_sanitizeLabel (text : String) : ':' ∉ (sanitizeLabel text).toList := by
  intro member
  rcases mem_sanitizeLabel member with hyphen | alphanumeric
  · exact absurd hyphen (by decide)
  · cases alphanumeric

theorem label_eq_of_tag_eq {id other branch otherBranch : String}
    (same : "fghj/" ++ sanitizeLabel id ++ ":" ++ branch =
      "fghj/" ++ sanitizeLabel other ++ ":" ++ otherBranch) :
    sanitizeLabel id = sanitizeLabel other := by
  have shape (label branch : String) : ("fghj/" ++ label ++ ":" ++ branch).toList =
      "fghj/".toList ++ (label.toList ++ ':' :: branch.toList) := by
    simp
  have chars := congrArg String.toList same
  rw [shape, shape, List.append_cancel_left_eq,
    Text.append_separator_inj (colon_not_mem_sanitizeLabel id)
      (colon_not_mem_sanitizeLabel other)] at chars
  exact String.toList_inj.mp chars.1

/-- A tag tells the flattened id. -/
theorem label_eq_of_imageTag {node rival : Node} {tag : String} (tagged : imageTag node = some tag)
    (same : imageTag rival = some tag) : sanitizeLabel node.id = sanitizeLabel rival.id := by
  obtain ⟨path, -, built⟩ := Option.bind_eq_some_iff.mp tagged
  obtain ⟨otherPath, -, otherBuilt⟩ := Option.bind_eq_some_iff.mp same
  obtain ⟨source, -, rfl⟩ := Option.map_eq_some_iff.mp built
  obtain ⟨other, -, equal⟩ := Option.map_eq_some_iff.mp otherBuilt
  exact (label_eq_of_tag_eq equal).symm

/-! ## Every interleaving -/

/-- Starts are of nodes of the workspaces, active ones hold different locks, and the tag of a start
that has built stands for what it built. -/
structure Sound (graphs : List Graph) (machine : Machine) : Prop where
  nodes : ∀ start ∈ machine.starts, ∃ graph, graphs[start.workspace]? = some graph ∧
    start.node ∈ graph.nodes
  locks : ∀ (number other : Nat) (start rival : Start), machine.starts[number]? = some start →
    machine.starts[other]? = some rival → start.active → rival.active →
    start.workspace = rival.workspace → start.node.id = rival.node.id → number = other
  images : ∀ (number : Nat) (start : Start) (tag : String), machine.starts[number]? = some start →
    start.phase = .built → imageTag start.node = some tag →
      machine.images[tag]? = some (ownImage number start)
  created : OwnImages machine

section Step

variable {graphs : List Graph} {machine : Machine}

/-- Two active starts do not build one tag. -/
theorem Sound.eq_of_tag (sound : Sound graphs machine) (apart : TagsApart graphs)
    {toLowercase : String → String} (accepted : ∀ graph ∈ graphs, Accepted toLowercase graph)
    {number other : Nat} {start rival : Start} (found : machine.starts[number]? = some start)
    (holds : machine.starts[other]? = some rival) (active : start.active) (rivals : rival.active)
    {tag : String} (tagged : imageTag start.node = some tag)
    (same : imageTag rival.node = some tag) : number = other := by
  obtain ⟨graph, graph_eq, member⟩ := sound.nodes start (List.mem_of_getElem? found)
  obtain ⟨others, others_eq, listed⟩ := sound.nodes rival (List.mem_of_getElem? holds)
  by_cases here : start.workspace = rival.workspace
  · rw [here, others_eq] at graph_eq
    cases graph_eq
    have label := label_eq_of_imageTag tagged same
    have equal :=
      (accepted graph (List.mem_of_getElem? others_eq)).eq_of_label_eq member listed label
    exact sound.locks number other start rival found holds active rivals here (by rw [equal])
  · exact ((tagsApart_iff graphs).mp apart start.workspace rival.workspace graph others graph_eq
      others_eq here start.node member rival.node listed tag tagged same).elim

theorem setPhase_get {number place : Nat} {phase : Phase} {start : Start}
    (found : (machine.setPhase number phase).starts[place]? = some start) :
    ∃ old, machine.starts[place]? = some old ∧
      start = if number = place then { old with phase } else old := by
  rw [Machine.setPhase, List.getElem?_modify] at found
  obtain ⟨old, old_eq, rfl⟩ := Option.map_eq_some_iff.mp found
  refine ⟨old, old_eq, ?_⟩
  split <;> rfl

/-- An active start that moves on, if the tags of the others stay and its own is right. -/
theorem Sound.moves (sound : Sound graphs machine) {number : Nat} {start : Start}
    (found : machine.starts[number]? = some start) (active : start.active) {phase : Phase}
    {images : OrderedMap String Image}
    (others : ∀ (place : Nat) (old : Start) (tag : String), place ≠ number →
      machine.starts[place]? = some old → old.phase = .built → imageTag old.node = some tag →
        images[tag]? = machine.images[tag]?)
    (builds : phase = .built → ∀ tag, imageTag start.node = some tag →
      images[tag]? = some (ownImage number start))
    (creates : ∀ image, phase = .created image → image = some (ownImage number start)) :
    Sound graphs { machine.setPhase number phase with images } := by
  have was {place : Nat} {later : Start}
      (held : (machine.setPhase number phase).starts[place]? = some later) :
      ∃ old, machine.starts[place]? = some old ∧ later.workspace = old.workspace ∧
        later.node = old.node ∧ (later.active → old.active) ∧
        (place ≠ number → later.phase = old.phase) ∧ (place = number → later.phase = phase) := by
    obtain ⟨old, old_eq, rfl⟩ := setPhase_get held
    refine ⟨old, old_eq, ?_⟩
    by_cases here : number = place
    · subst here
      have same := Option.some.inj (old_eq.symm.trans found)
      simp [same, active]
    · simp [here, Ne.symm here]
  constructor
  · intro later member
    obtain ⟨place, held⟩ := List.mem_iff_getElem?.mp member
    obtain ⟨old, old_eq, workspace, node, -⟩ := was held
    rw [workspace, node]
    exact sound.nodes old (List.mem_of_getElem? old_eq)
  · intro place other first second firstHeld secondHeld firstActive secondActive here same
    obtain ⟨one, one_eq, oneWorkspace, oneNode, oneActive, -⟩ := was firstHeld
    obtain ⟨two, two_eq, twoWorkspace, twoNode, twoActive, -⟩ := was secondHeld
    rw [oneWorkspace, twoWorkspace] at here
    rw [oneNode, twoNode] at same
    exact sound.locks place other one two one_eq two_eq (oneActive firstActive)
      (twoActive secondActive) here same
  · intro place later tag held built tagged
    obtain ⟨old, old_eq, workspace, node, -, elsewhere, here⟩ := was held
    have own : ownImage place later = ownImage place old := by
      simp [ownImage, workspace, node]
    rw [node] at tagged
    rw [own]
    by_cases same : place = number
    · subst same
      cases old_eq.symm.trans found
      exact builds (by rw [← here rfl, built]) tag tagged
    · rw [elsewhere same] at built
      have kept := others place old tag same old_eq built tagged
      exact kept.trans (sound.images place old tag old_eq built tagged)
  · intro place later image held created
    obtain ⟨old, old_eq, workspace, node, -, elsewhere, here⟩ := was held
    have own : ownImage place later = ownImage place old := by
      simp [ownImage, workspace, node]
    rw [own]
    by_cases same : place = number
    · subst same
      cases old_eq.symm.trans found
      exact creates image (by rw [← here rfl, created])
    · rw [elsewhere same] at created
      exact sound.created place old image old_eq created

theorem Sound.began (sound : Sound graphs machine) (workspace place : Nat) :
    Sound graphs (step graphs machine (.began workspace place)) := by
  simp only [step]
  split
  · exact sound
  · rename_i node found
    obtain ⟨graph, graph_eq, node_eq⟩ := Option.bind_eq_some_iff.mp found
    split
    · exact sound
    · rename_i free
      simp only [Bool.or_eq_true, not_or, Bool.not_eq_true] at free
      have unlocked : ∀ start ∈ machine.starts, start.active → start.workspace = workspace →
          start.node.id ≠ node.id := by
        intro start member active here same
        have held : machine.locked workspace node.id = true :=
          List.any_eq_true.mpr ⟨start, member, by simp [active, here, same]⟩
        rw [free.2] at held
        cases held
      constructor
      · intro start member
        rcases List.mem_append.mp member with earlier | new
        · exact sound.nodes start earlier
        · obtain rfl := List.mem_singleton.mp new
          exact ⟨graph, graph_eq, List.mem_of_getElem? node_eq⟩
      · intro number other start rival held holds active rivals here same
        rcases Slots.getElem?_concat_cases held with old | ⟨rfl, rfl⟩
        · rcases Slots.getElem?_concat_cases holds with older | ⟨rfl, rfl⟩
          · exact sound.locks number other start rival old older active rivals here same
          · exact (unlocked start (List.mem_of_getElem? old) active here same).elim
        · rcases Slots.getElem?_concat_cases holds with older | ⟨rfl, -⟩
          · exact (unlocked rival (List.mem_of_getElem? older) rivals here.symm same.symm).elim
          · rfl
      · intro number start tag held built tagged
        rcases Slots.getElem?_concat_cases held with old | ⟨rfl, rfl⟩
        · exact sound.images number start tag old built tagged
        · cases built
      · intro number start image held created
        rcases Slots.getElem?_concat_cases held with old | ⟨rfl, rfl⟩
        · exact sound.created number start image old created
        · cases created

/-- Every event keeps the machine sound where no two workspaces build one tag. -/
theorem Sound.step (sound : Sound graphs machine) (apart : TagsApart graphs)
    {toLowercase : String → String} (accepted : ∀ graph ∈ graphs, Accepted toLowercase graph)
    (event : Event) : Sound graphs (step graphs machine event) := by
  cases event with
  | began workspace place => exact sound.began workspace place
  | built number =>
      simp only [ImageTags.step]
      split
      · exact sound
      · rename_i start found
        split
        · rename_i tag locked tagged
          have active : start.active := by simp [Start.active, locked]
          apply sound.moves found active
          · intro place old other away held built otherTagged
            have rivals : old.active := by simp [Start.active, built]
            have different : tag ≠ other := by
              rintro rfl
              exact away (sound.eq_of_tag apart accepted held found rivals active
                otherTagged tagged)
            simp [different]
          · intro _ other otherTagged
            cases tagged.symm.trans otherTagged
            simp
          · exact fun image phase => nomatch phase
        · exact sound
  | created number =>
      simp only [ImageTags.step]
      split
      · exact sound
      · rename_i start found
        split
        · rename_i tag built tagged
          have active : start.active := by simp [Start.active, built]
          apply sound.moves found active
          · exact fun _ _ _ _ _ _ _ => rfl
          · exact fun phase => nomatch phase
          · intro image phase
            cases phase
            exact sound.images number start tag found built tagged
        · exact sound
  | failed number =>
      simp only [ImageTags.step]
      split
      · exact sound
      · rename_i start found
        split
        · rename_i active
          apply sound.moves found active
          · exact fun _ _ _ _ _ _ _ => rfl
          · exact fun phase => nomatch phase
          · exact fun image phase => nomatch phase
        · exact sound

end Step

/-- Two starts of one tag in two workspaces, the second of which builds before the first creates. -/
def crossing (place node other rival : Nat) : List Event :=
  [.began place node, .began other rival, .built 0, .built 1, .created 0]

theorem not_ownImages_crossing {graphs : List Graph} {place other : Nat} {graph rivals : Graph}
    (found : graphs[place]? = some graph) (held : graphs[other]? = some rivals)
    (different : place ≠ other) {first second : Nat} {node rival : Node}
    (listed : graph.nodes[first]? = some node) (present : rivals.nodes[second]? = some rival)
    {tag : String} (tagged : imageTag node = some tag) (same : imageTag rival = some tag) :
    ¬OwnImages (Execution.run (step graphs) {} (crossing place first other second)) := by
  intro own
  have unlocked : (place == other) = false := by simpa using different
  have last : (Execution.run (step graphs) {} (crossing place first other second)).starts[0]? =
      some ⟨place, node, .created (some (ownImage 1 { workspace := other, node := rival }))⟩ := by
    simp [crossing, Execution.run, step, found, held, listed, present, tagged, same,
      Machine.locked, Machine.setPhase, unlocked, Start.active]
  have image := own 0 _ _ last rfl
  simp [ownImage] at image

/-- Every start gets its own image in every interleaving exactly when no two workspaces build one
tag. -/
theorem own_images_iff {toLowercase : String → String} {graphs : List Graph}
    (accepted : ∀ graph ∈ graphs, Accepted toLowercase graph) :
    (∀ events, OwnImages (Execution.run (step graphs) {} events)) ↔ TagsApart graphs := by
  constructor
  · intro own
    rw [tagsApart_iff]
    intro place other graph rivals found held different node member rival listed tag tagged same
    obtain ⟨first, node_eq⟩ := List.mem_iff_getElem?.mp member
    obtain ⟨second, rival_eq⟩ := List.mem_iff_getElem?.mp listed
    exact not_ownImages_crossing found held different node_eq rival_eq tagged same
      (own (crossing place first other second))
  · intro apart events
    have initial : Sound graphs {} := by
      constructor
      · exact fun start member => nomatch member
      · exact fun number other start rival held => nomatch held
      · exact fun number start tag held => nomatch held
      · exact fun number start image held => nomatch held
    have sound : Sound graphs (Execution.run (step graphs) {} events) :=
      Execution.run_always (step graphs) (Sound graphs)
        (fun machine event sound => sound.step apart accepted event) initial events
    exact sound.created

/-- A workspace that holds a checkout of `shop` on `main`, with one service built from it. -/
def builtShop (workspaceName service : String) : Graph :=
  resolveWorkspace id workspaceName
    ((∅ : OrderedMap String ComponentConfig).insert "shop"
      { services := (∅ : OrderedMap String ServiceConfig).insert service { build := some none } })
    ((∅ : OrderedMap String RepoFacts).insert "shop" { branch := some "main" })

theorem accepted_builtShop {workspaceName service : String}
    (unblocked : (builtShop workspaceName service).blockingWarnings = []) :
    Accepted id (builtShop workspaceName service) :=
  ⟨⟨_, _, rfl⟩, unblocked⟩

theorem own_images_two_services :
    TagsApart [builtShop "one" "web", builtShop "two" "api"] ∧
      ∀ events, OwnImages (Execution.run
        (step [builtShop "one" "web", builtShop "two" "api"]) {} events) := by
  have first : Accepted id (builtShop "one" "web") := accepted_builtShop (by decide)
  have second : Accepted id (builtShop "two" "api") := accepted_builtShop (by decide)
  have apart : TagsApart [builtShop "one" "web", builtShop "two" "api"] := by decide
  exact ⟨apart, (own_images_iff (first.pair second)).mpr apart⟩

/-- Two workspaces that hold the same repo on the same branch: the second builds between the build
and the creation of the first, whose container then runs the second's image. -/
theorem image_of_other_workspace :
    ¬∀ graphs : List Graph, (∀ graph ∈ graphs, Accepted id graph) →
      (graphs.map fun graph => sanitizeLabel graph.workspaceName).Nodup →
      ∀ events, OwnImages (Execution.run (step graphs) {} events) := by
  intro claim
  have first : Accepted id (builtShop "one" "web") := accepted_builtShop (by decide)
  have second : Accepted id (builtShop "two" "web") := accepted_builtShop (by decide)
  have meet : ∃ node ∈ (builtShop "one" "web").nodes, ∃ rival ∈ (builtShop "two" "web").nodes,
      imageTag node = some "fghj/web-shop:main" ∧ imageTag rival = some "fghj/web-shop:main" := by
    decide
  obtain ⟨node, member, rival, listed, tagged, same⟩ := meet
  obtain ⟨place, node_eq⟩ := List.mem_iff_getElem?.mp member
  obtain ⟨other, rival_eq⟩ := List.mem_iff_getElem?.mp listed
  exact not_ownImages_crossing rfl rfl Nat.zero_ne_one node_eq rival_eq tagged same
    (claim _ (first.pair second) (by decide) (crossing 0 place 1 other))

end ImageTags
end Fghj
