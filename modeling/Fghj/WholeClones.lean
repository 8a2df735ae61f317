import Fghj.PullTrust

/-!
# Whole clones

Where no pull takes a clone that git has begun for a finished one, a pull that settles well leaves
every repo and every source as a finished clone, at the source's own commit.
-/

namespace Fghj
namespace Pull

open Std (ExtTreeMap)
open Checkouts World

variable {world : World} {history : History}

/-! ## What resolving says -/

/-- What is asked for is there: a repo that is scanned, or a folder for a source. -/
def Seen (disk : Disk) : Demand → Prop
  | .repo name => ∃ folder, disk.folders[name]? = some folder ∧ folder.yaml ≠ .absent
  | .clone asked => (disk.find asked.place).isSome

variable {disk : Disk}

theorem seen_of_downloaded {node : Node}
    (listed : node ∈ (disk.graph world.toLowercase world.workspaceName).nodes)
    (downloaded : node.downloaded = true) (here : disk.missingSource node = none) :
    ∀ demand ∈ demandsOf disk node, Seen disk demand := by
  intro demand asked
  have backed := backed_of_mem_graph world.toLowercase listed
  rcases List.mem_append.mp asked with repo | source
  · obtain ⟨name, located, scanned⟩ := backed.here downloaded
    rw [located, Option.map_some, Option.toList_some, List.mem_singleton] at repo
    subst repo
    obtain ⟨file, lookup⟩ :=
      Option.isSome_iff_exists.mp (ExtTreeMap.mem_iff_isSome_getElem?.mp scanned)
    simp only [Disk.files, ExtTreeMap.getElem?_filterMap', Option.bind_eq_some_iff,
      file?_eq_some] at lookup
    obtain ⟨folder, held, readable⟩ := lookup
    exact ⟨folder, held, by rw [readable]; simp⟩
  · rw [Option.mem_toList] at source
    obtain ⟨found, known, rfl⟩ := Option.map_eq_some_iff.mp source
    obtain ⟨remote, origin, -⟩ :=
      sourcesNamed_nodeSources disk node.id found (Option.join_eq_some_iff.mp known)
    rw [Disk.missingSource, known, Option.filter_some_eq_none] at here
    have cloned : found.downloaded = true := by simpa using here
    rw [origin, Source.read, Option.any_eq_true] at cloned
    obtain ⟨folder, held, -⟩ := cloned
    rw [origin]
    exact Option.isSome_iff_exists.mpr ⟨folder, held⟩

/-- Whatever a pull resolves to be present is there. -/
theorem seen_of_present {order : Order} {demands : List Demand}
    (present : world.resolve disk order = .present demands) :
    ∀ demand ∈ demands, Seen disk demand := by
  have all (flow : Option String) (present : world.resolveAll disk flow = .present demands) :
      ∀ demand ∈ demands, Seen disk demand := by
    rw [resolveAll] at present
    split at present
    · cases present
    · rename_i wanted found
      split at present
      · rename_i nothing
        rw [Bool.and_eq_true, List.isEmpty_iff, List.isEmpty_iff] at nothing
        obtain rfl := Resolved.present.inj present
        intro demand asked
        obtain ⟨node, listed, asked⟩ := List.mem_flatMap.mp asked
        have downloaded : node.downloaded = true := by
          simpa using List.filter_eq_nil_iff.mp nothing.1 node listed
        exact seen_of_downloaded ((wanted_subset found).subset listed) downloaded
          (missingSource_eq_none nothing.2 listed) demand asked
      · cases present
  cases order with
  | all => exact all none present
  | flow name => exact all (some name) present
  | node id =>
      rw [resolve, resolveNode] at present
      split at present
      · cases present
      · rename_i node found
        split at present
        · cases present
        · rename_i here
          split at present
          · rename_i downloaded
            obtain rfl := Resolved.present.inj present
            exact seen_of_downloaded (List.mem_of_find?_eq_some found) downloaded here
          · cases present

/-! ## What a pull finds -/

variable {clone : Clone}

/-- A finished clone that is found stands, and so does what is the user's. -/
theorem Stands.of_finished (invariant : Invariant world history)
    (finished : world.Finished clone (history.standing clone.place))
    (here : (history.disk.find clone.place).isSome) : Stands world history (.clone clone) := by
  cases whose : history.standing clone.place with
  | theirs => exact .inl ⟨whose, here⟩
  | begun id begun stage =>
      rw [whose] at finished
      cases finished
  | whole made =>
      rw [whose] at finished
      obtain ⟨remote, listed, url, reference, found⟩ := invariant.whole _ made whose
      exact .inr ⟨made, whose, remote, listed, found, url ▸ finished.1,
        fun source => reference.trans (finished.2 source)⟩

/-- A repo that is scanned stands: a clone that has a file is a source's, and no repo's. -/
theorem Stands.of_scanned (invariant : Invariant world history) {name : String}
    (seen : Seen history.disk (.repo name)) : Stands world history (.repo name) := by
  obtain ⟨folder, held, present⟩ := seen
  have found : history.disk.find (.folder name) = some folder := held
  cases whose : history.standing (.folder name) with
  | theirs => exact .inl ⟨whose, by rw [Demand.place, found]; rfl⟩
  | begun id clone stage =>
      obtain ⟨named, notSources, source, other, stands, bare⟩ :=
        invariant.begun _ id clone stage whose
      obtain rfl := Option.some.inj (found.symm.trans stands)
      by_cases tree : stage = .tree
      · rw [Clone.place, source tree, if_pos rfl, Place.ofSource] at named
        split at named
        · exact absurd named.symm notSources
        · split at named <;> cases named
      · exact absurd (bare tree) present
  | whole made =>
      obtain ⟨remote, listed, -, -, stands⟩ := invariant.whole _ made whose
      exact .inr ⟨made, whose, remote, listed, stands, trivial⟩

/-! ## git -/

theorem remoteAt_spec {reference : Option String} {remote : Remote}
    (found : world.remoteAt clone reference = some remote) :
    remote ∈ world.remotes ∧ remote.url = clone.url ∧ remote.reference = reference := by
  have same := List.find?_some found
  rw [Bool.and_eq_true, beq_iff_eq, beq_iff_eq] at same
  exact ⟨List.mem_of_find?_eq_some found, same⟩

variable {stage : Stage}

/-- git is through with a clone when the checkout is that of the remote at the reference. -/
theorem nextStage_whole {folder : Folder}
    (next : world.nextStage clone stage = some (folder, none)) :
    ∃ remote ∈ world.remotes,
      remote.url = clone.url ∧ remote.reference = clone.reference ∧ folder = remote.checkout := by
  cases stage with
  | made => cases next
  | origin => cases next
  | fetched =>
      obtain ⟨remote, found, same⟩ := Option.map_eq_some_iff.mp next
      obtain ⟨listed, url, reference⟩ := remoteAt_spec found
      obtain ⟨folder_eq, through⟩ := Prod.mk.inj same
      rw [Clone.branch] at reference
      split at through
      · cases through
      · rename_i unpinned
        rw [if_neg unpinned] at reference
        exact ⟨remote, listed, url, reference, folder_eq.symm⟩
  | tree =>
      obtain ⟨remote, found, same⟩ := Option.map_eq_some_iff.mp next
      obtain ⟨listed, url, reference⟩ := remoteAt_spec found
      exact ⟨remote, listed, url, reference, (Prod.mk.inj same).1.symm⟩

/-- Before a tree is checked out there is no file; after it only a source's commit is left. -/
theorem nextStage_begun {stage later : Stage} {folder : Folder}
    (next : world.nextStage clone stage = some (folder, some later)) :
    (later = .tree → clone.source = true) ∧ (later ≠ .tree → folder.yaml = .absent) := by
  cases stage with
  | made =>
      obtain ⟨rfl, later_eq⟩ := Prod.mk.inj (Option.some.inj next)
      obtain rfl := Option.some.inj later_eq
      exact ⟨fun tree => absurd tree (by decide), fun _ => rfl⟩
  | origin =>
      obtain ⟨rfl, later_eq⟩ := Prod.mk.inj (Option.some.inj next)
      obtain rfl := Option.some.inj later_eq
      exact ⟨fun tree => absurd tree (by decide), fun _ => rfl⟩
  | fetched =>
      obtain ⟨remote, -, same⟩ := Option.map_eq_some_iff.mp next
      have pinned := (Prod.mk.inj same).2
      split at pinned
      · rename_i commit
        obtain rfl := Option.some.inj pinned
        refine ⟨fun _ => ?_, fun other => absurd rfl other⟩
        by_contra repo
        rw [Clone.pinned, if_neg repo] at commit
        cases commit
      · cases pinned
  | tree =>
      obtain ⟨remote, -, same⟩ := Option.map_eq_some_iff.mp next
      cases (Prod.mk.inj same).2

theorem OwnFolder.put {id : Nat} {folder : Folder} {place : Place}
    (own : history.disk.find place = none ∨
      ∃ clone stage, history.standing place = .begun id clone stage)
    (placed : history.disk.put folder place = some disk) : OwnFolder history id disk place :=
  ⟨own, fun _ different => Disk.find_put_other placed different⟩

/-- Its own folder is all that git removes, unless it is the folder of sources. -/
theorem OwnFolder.remove {id : Nat} {place : Place}
    (begun : history.standing place = .begun id clone stage) (apart : place ≠ .folder sourcesDir) :
    OwnFolder history id (history.disk.remove place) place := by
  refine ⟨.inr ⟨clone, stage, begun⟩, fun other different => .inr (Disk.find_remove _ ?_)⟩
  unfold Place.isWithin
  simp [different, apart]

variable {id : Nat} {job : Job}

/-- A pull that has its folder has it still, with all it knows, a stage later. -/
theorem OwnFolder.jobSound {queue : List (Except String Clone)}
    (own : OwnFolder history id disk clone.place)
    (met : ∀ demand ∈ job.demands, Met world history job demand)
    (pending : Pending world { job with phase := .cloning clone stage queue }) :
    JobSound world
      (history.place id { job with phase := .cloning clone stage queue } disk clone.place
        (.begun id clone stage)) id { job with phase := .cloning clone stage queue } where
  own := by
    intro other reached rest phase
    obtain ⟨rfl, rfl, -⟩ := Phase.cloning.inj phase
    exact .inr (standing_place ..)
  met := fun _ demand listed =>
    (met demand listed).spared (own.spared _ _ _) fun changed => changed
  answers := pending

theorem Invariant.startGit (invariant : Invariant world history)
    {queue : List (Except String Clone)}
    (met : ∀ demand ∈ job.demands, Met world history job demand) (pending : Pending world job)
    (waits : job.waiting = .ok clone :: queue) (apart : clone.place ≠ .folder sourcesDir)
    (alone : (history.disk.find clone.place).isSome →
      world.Finished clone (history.standing clone.place)) :
    Invariant world (history.startGit id job clone queue) := by
  have fails (message : String) : Invariant world (history.put id (job.settle (.error message))) :=
    invariant.put (.of_settled rfl)
  cases found : history.disk.find clone.place with
  | some folder =>
      rw [found, Option.isSome_some] at alone
      have finished := alone rfl
      cases whose : history.standing clone.place with
      | theirs =>
          simp only [History.startGit, found, whose]
          exact fails _
      | begun other begun stage =>
          rw [whose] at finished
          cases finished
      | whole made =>
          simp only [History.startGit, found, whose]
          exact fails _
  | none =>
      simp only [History.startGit, found]
      cases placed : history.disk.put { facts := history.disk.root.facts } clone.place with
      | none => exact fails _
      | some disk =>
          have own : OwnFolder history id disk clone.place := .put (.inl found) placed
          refine invariant.place own (fun made same => by cases same) ?_
            (own.jobSound met (pending.of_waiting waits.symm))
          intro other begun stage same
          obtain ⟨rfl, rfl, rfl⟩ := Standing.begun.inj same
          exact ⟨rfl, apart, fun tree => absurd tree (by decide), _, Disk.find_put_self placed,
            fun _ => rfl⟩

/-- The clone a pull has made stands. -/
theorem Stands.of_made {later : Job} {remote : Remote} (listed : remote ∈ world.remotes)
    (url : remote.url = clone.url) (reference : remote.reference = clone.reference)
    (placed : history.disk.put remote.checkout clone.place = some disk) :
    Stands world (history.place id later disk clone.place (.whole clone)) (.clone clone) :=
  .inr ⟨clone, standing_place .., remote, listed, Disk.find_put_self placed,
    beq_iff_eq.mpr (congrArg _ url), fun _ => reference⟩

theorem Invariant.runGit (invariant : Invariant world history) {queue : List (Except String Clone)}
    (found : history.jobs[id]? = some job) (phase : job.phase = .cloning clone stage queue)
    (gets : Bool) : Invariant world (world.runGit history id job clone stage queue gets) := by
  have sound := invariant.jobs id job found
  have met := sound.met (by rw [phase]; rfl)
  have waits : job.waiting = .ok clone :: queue := by rw [Job.waiting, phase]
  have pending : Pending world job := by
    have answers := sound.answers
    rwa [Answers, phase] at answers
  simp only [World.runGit]
  split
  · -- the folder is still its own
    rename_i begun
    obtain ⟨-, apart, source, folder, stands, -⟩ := invariant.begun _ id clone stage begun
    split
    · refine invariant.place (.remove begun apart) (fun made same => by cases same)
        (fun other begun stage same => by cases same) (.of_settled rfl)
    · rename_i disk later reached
      obtain ⟨⟨checkout, next⟩, goesOn, placing⟩ := Option.bind_eq_some_iff.mp reached
      obtain ⟨after, placed, same⟩ := Option.map_eq_some_iff.mp placing
      obtain ⟨rfl, rfl⟩ := Prod.mk.inj same
      have through : world.nextStage clone stage = some (checkout, some later) := by
        cases gets with
        | true => exact goesOn
        | false => cases goesOn
      obtain ⟨isSource, bare⟩ := nextStage_begun through
      have own : OwnFolder history id after clone.place := .put (.inr ⟨clone, stage, begun⟩) placed
      refine invariant.place own (fun made same => by cases same) ?_
        (own.jobSound met (pending.of_waiting waits.symm))
      intro other begun stage same
      obtain ⟨rfl, rfl, rfl⟩ := Standing.begun.inj same
      exact ⟨rfl, apart, isSource, checkout, Disk.find_put_self placed, bare⟩
    · rename_i disk reached
      obtain ⟨⟨checkout, next⟩, goesOn, placing⟩ := Option.bind_eq_some_iff.mp reached
      obtain ⟨after, placed, same⟩ := Option.map_eq_some_iff.mp placing
      obtain ⟨rfl, rfl⟩ := Prod.mk.inj same
      have through : world.nextStage clone stage = some (checkout, none) := by
        cases gets with
        | true => exact goesOn
        | false => cases goesOn
      obtain ⟨remote, listed, url, reference, rfl⟩ := nextStage_whole through
      have own : OwnFolder history id after clone.place := .put (.inr ⟨clone, stage, begun⟩) placed
      refine invariant.place own (fun made same => ?_) (fun other begun stage same => by cases same)
        (.of_met (fun _ _ _ => by simp [Job.next]) (fun demand asked => ?_) (pending.next waits))
      · obtain rfl := Standing.whole.inj same
        exact ⟨remote, listed, url, reference, Disk.find_put_self placed⟩
      · rcases List.mem_cons.mp asked with rfl | before
        · exact .inr (.of_made listed url reference placed)
        · exact (met demand before).spared (own.spared _ _ _) fun changed => changed
  · -- the user has taken the folder, so whatever git does is not held against the pull
    rename_i lost
    have user : job.changed clone.place = true :=
      (sound.own clone stage queue phase).resolve_right lost
    split
    · exact (invariant.edit _).put (.of_settled rfl)
    · refine invariant.put
        ⟨fun other reached rest same => ?_, fun _ => met, pending.of_waiting waits.symm⟩
      obtain ⟨rfl, -, -⟩ := Phase.cloning.inj same
      exact .inl user
    · refine invariant.put (.of_met (fun _ _ _ => by simp [Job.next]) (fun demand asked => ?_)
        (pending.next waits))
      rcases List.mem_cons.mp asked with rfl | before
      · exact .inl user
      · exact met demand before

/-! ## Runs -/

theorem Invariant.resolves (invariant : Invariant world history)
    (met : ∀ demand ∈ job.demands, Met world history job demand) (phase : job.phase = .resolving)
    (trusts : ∀ clone ∈ world.trusts history job,
      world.Finished clone (history.standing clone.place)) (gets : Bool) :
    Invariant world (world.advance history id job gets) := by
  have settles (result : Except String Unit) :
      Invariant world (history.put id (job.settle result)) :=
    invariant.put (.of_settled rfl)
  simp only [World.advance, phase]
  split
  · split
    · exact settles _
    · rename_i requests missing
      exact invariant.put (.of_met (fun _ _ _ => by simp) met
        ⟨history.disk, requests, rfl, missing, fun _ listed => .inr listed⟩)
    · rename_i demands present
      have there := seen_of_present present
      have covers : Covers world history.disk
          { job with
            phase := .images
            resolved := some history.disk
            demands := demands ++ job.demands } := by
        simp only [Covers, present]
        exact List.subset_append_left _ _
      refine invariant.put (.of_met (fun _ _ _ => by simp) (fun demand asked => ?_)
        ⟨history.disk, rfl, covers⟩)
      rcases List.mem_append.mp asked with new | before
      · refine .inr ?_
        cases demand with
        | repo name => exact .of_scanned invariant (there _ new)
        | clone clone =>
            refine .of_finished invariant (trusts clone ?_) (there _ new)
            rw [World.trusts, phase]
            simp only [present]
            exact List.mem_filterMap.mpr ⟨_, new, rfl⟩
      · exact met demand before
  · exact settles _

theorem Invariant.asks (invariant : Invariant world history)
    (met : ∀ demand ∈ job.demands, Met world history job demand) (pending : Pending world job)
    {queue : List (Except String Clone)} (phase : job.phase = .asking (.ok clone :: queue))
    (trusts : ∀ clone ∈ world.trusts history job,
      world.Finished clone (history.standing clone.place))
    (gets : Bool) : Invariant world (world.advance history id job gets) := by
  have waits : job.waiting = .ok clone :: queue := by rw [Job.waiting, phase]
  simp only [World.advance, phase]
  split
  · exact invariant.put (.of_met (fun _ _ _ => by simp) met (pending.of_waiting waits.symm))
  · rename_i folder there
    split
    · rename_i own
      refine invariant.put (.of_met (fun _ _ _ => by simp [Job.next]) (fun demand asked => ?_)
        (pending.next waits))
      rcases List.mem_cons.mp asked with rfl | before
      · refine .inr (.of_finished invariant (trusts clone ?_) (by rw [there]; rfl))
        rw [World.trusts, phase]
        simp only [there, own]
        exact List.mem_singleton_self clone
      · exact met demand before
    · exact invariant.put (.of_settled rfl)

theorem Invariant.advance (invariant : Invariant world history)
    (found : history.jobs[id]? = some job) (trusts : ∀ clone ∈ world.trusts history job,
      world.Finished clone (history.standing clone.place))
    (apart : isApart job.phase = true) (gets : Bool) :
    Invariant world (world.advance history id job gets) := by
  have sound := invariant.jobs id job found
  have answers := sound.answers
  have settles (result : Except String Unit) :
      Invariant world (history.put id (job.settle result)) :=
    invariant.put (.of_settled rfl)
  cases phase : job.phase with
  | resolving => exact invariant.resolves (sound.met (by rw [phase]; rfl)) phase trusts gets
  | asking queue =>
      rw [Answers, phase] at answers
      have met := sound.met (by rw [phase]; rfl)
      cases queue with
      | nil =>
          -- nothing left to ask for
          simp only [World.advance, phase]
          refine invariant.put (.of_met (fun _ _ _ => ?_) met ?_)
          · simp only [Job.asked]
            cases job.order <;> simp
          · exact answers.asked (by rw [Job.waiting, phase])
      | cons request queue =>
          cases request with
          | error message =>
              simp only [World.advance, phase]
              exact settles _
          | ok clone => exact invariant.asks met answers phase trusts gets
  | spawned clone queue =>
      rw [Answers, phase] at answers
      simp only [World.advance, phase]
      split
      · refine invariant.startGit (sound.met (by rw [phase]; rfl)) answers
          (by rw [Job.waiting, phase]) ?_ fun there => trusts clone ?_
        · rw [phase] at apart
          exact bne_iff_ne.mp apart
        · rw [World.trusts, phase]
          simp only [there, if_true]
          exact List.mem_singleton_self clone
      · exact settles _
  | cloning clone stage queue =>
      simp only [World.advance, phase]
      exact invariant.runGit found phase gets
  | images =>
      simp only [World.advance, phase]
      exact settles _
  | settled result =>
      simp only [World.advance, phase]
      exact invariant
  | stopped =>
      simp only [World.advance, phase]
      exact invariant

theorem Invariant.step (invariant : Invariant world history) (event : Event)
    (sure : world.Sure history event) : Invariant world (world.step history event) := by
  cases event with
  | start order =>
      simp only [World.step]
      split
      · exact invariant
      · refine ⟨invariant.whole, invariant.begun, fun id job found => ?_⟩
        rw [List.getElem?_append] at found
        split at found
        · have sound := invariant.jobs id job found
          exact ⟨sound.own, sound.met, sound.answers⟩
        · rw [List.getElem?_singleton] at found
          split at found
          · obtain rfl := Option.some.inj found
            exact .of_met (fun _ _ _ => by simp) (fun demand asked => by cases asked) trivial
          · cases found
  | act id gets =>
      simp only [World.step]
      simp only [World.Sure] at sure
      cases found : history.jobs[id]? with
      | none => exact invariant
      | some job =>
          obtain ⟨trusts, apart⟩ := sure job found
          exact invariant.advance found trusts apart gets
  | stop =>
      refine ⟨invariant.whole, invariant.begun, fun id later listed => ?_⟩
      simp only [World.step, List.getElem?_map, Option.map_eq_some_iff] at listed
      obtain ⟨job, found, rfl⟩ := listed
      split
      · exact .of_settled rfl
      · rename_i ended
        exact .of_settled (Bool.eq_false_iff.mpr ended)
  | user edit => exact invariant.edit edit

theorem invariant_run (world : World) (disk : Disk) {events : List Event}
    (sure : Execution.Along world.step world.Sure { disk } events) :
    Invariant world (Execution.run world.step { disk } events) :=
  Execution.run_invariant world.step world.Sure _
    (fun _ event invariant condition => invariant.step event condition)
    (invariant_new world disk) sure

/-! ## Pulls that settle well -/

theorem set_self {jobs : List Job} {later final : Job}
    (listed : (jobs.set id later)[id]? = some final) : final = later := by
  rw [List.getElem?_set, if_pos rfl] at listed
  split at listed
  · exact (Option.some.inj listed).symm
  · cases listed

/-- git's steps settle a pull only with an error. -/
theorem not_settled_startGit {queue : List (Except String Clone)} {final : Job}
    (listed : (history.startGit id job clone queue).jobs[id]? = some final) :
    final.phase ≠ .settled (.ok ()) := by
  unfold History.startGit at listed
  split at listed
  · split at listed
    · obtain rfl := set_self listed
      simp [Job.settle]
    · obtain rfl := set_self listed
      simp
  · split at listed
    · obtain rfl := set_self listed
      simp [Job.settle]
    · obtain rfl := set_self listed
      simp
  · obtain rfl := set_self listed
    simp [Job.settle]

theorem not_settled_runGit {queue : List (Except String Clone)} {gets : Bool} {final : Job}
    (listed : (world.runGit history id job clone stage queue gets).jobs[id]? = some final) :
    final.phase ≠ .settled (.ok ()) := by
  simp only [World.runGit] at listed
  split at listed
  · split at listed
    · obtain rfl := set_self listed
      simp [Job.settle]
    · obtain rfl := set_self listed
      simp
    · obtain rfl := set_self listed
      simp [Job.next]
  · split at listed
    · obtain rfl := set_self listed
      simp [Job.settle]
    · obtain rfl := set_self listed
      simp
    · obtain rfl := set_self listed
      simp [Job.next]

/-- A pull settles well only behind its images, with all it was asked for before. -/
theorem settled_of_images {gets : Bool} {final : Job} (running : job.phase.isRunning = true)
    (listed : (world.advance history id job gets).jobs[id]? = some final)
    (well : final.phase = .settled (.ok ())) :
    job.phase = .images ∧ final.order = job.order ∧ final.demands = job.demands ∧
      final.changed = job.changed ∧ final.resolved = job.resolved ∧
      world.advance history id job gets = history.put id final := by
  unfold World.advance at listed ⊢
  split at listed
  · rename_i phase
    split at listed
    · split at listed <;> obtain rfl := set_self listed <;> simp [Job.settle] at well
    · obtain rfl := set_self listed
      simp [Job.settle] at well
  · obtain rfl := set_self listed
    rw [Job.asked] at well
    cases order : job.order <;> simp [order] at well
  · obtain rfl := set_self listed
    simp [Job.settle] at well
  · split at listed
    · obtain rfl := set_self listed
      cases well
    · split at listed <;> obtain rfl := set_self listed <;> simp [Job.settle, Job.next] at well
  · split at listed
    · exact absurd well (not_settled_startGit listed)
    · obtain rfl := set_self listed
      simp [Job.settle] at well
  · exact absurd well (not_settled_runGit listed)
  · rename_i phase
    obtain rfl := set_self listed
    exact ⟨phase, rfl, rfl, rfl, rfl, rfl⟩
  · rename_i phase
    rw [phase] at running
    cases running
  · rename_i phase
    rw [phase] at running
    cases running

/-- What a pull was asked for on the disk that it resolved last is there. -/
structure Complete (world : World) (history : History) (job : Job) : Prop where
  covers : ∃ disk, job.resolved = some disk ∧ Covers world disk job
  met : ∀ demand ∈ job.demands, Met world history job demand

/-- Where no pull takes a clone that git has begun, or one at another reference, for the one it
looks for, a pull that settles well leaves all it was asked for: each repo and each source is what
the user made of it, or the finished clone of its own remote, a source at its own commit, tag or
branch. -/
theorem settled_pull_whole (world : World) (disk : Disk) {events : List Event}
    (sure : Execution.Along world.step world.Sure { disk } events) {id : Nat} {gets : Bool}
    {job final : Job} (found : (Execution.run world.step { disk } events).jobs[id]? = some job)
    (running : job.phase.isRunning = true)
    (settles :
      (Execution.run world.step { disk } (events ++ [.act id gets])).jobs[id]? = some final)
    (well : final.phase = .settled (.ok ())) :
    Complete world (Execution.run world.step { disk } (events ++ [.act id gets])) final := by
  have invariant := invariant_run world disk sure
  have sound := invariant.jobs id job found
  rw [Execution.run_append, Execution.run_cons, Execution.run_nil, World.step] at settles ⊢
  simp only [found] at settles ⊢
  obtain ⟨phase, order, demands, changed, resolved, same⟩ := settled_of_images running settles well
  constructor
  · have answers := sound.answers
    rw [Answers, phase] at answers
    obtain ⟨last, known, covers⟩ := answers
    exact ⟨last, resolved.trans known, by simpa only [Covers, order, demands] using covers⟩
  · intro demand asked
    rw [demands] at asked
    rw [same]
    rcases sound.met running demand asked with user | stands
    · exact .inl (changed ▸ user)
    · exact .inr stands

/-! ## A source pinned to a commit -/

/-- A file with a service that is built from another repo's commit. -/
def pinnedFile : RepoFile where
  component :=
    { services := (∅ : OrderedMap String ServiceConfig).insert "geo" { build := some none } }
  contexts := (∅ : OrderedMap String String).insert "geo" "https://example.com/geo.git#0123abc"

def pinnedDisk : Disk where
  folders := (∅ : OrderedMap String Folder).insert "app"
    { git := true
      facts := { repo := some "https://example.com/app.git" }
      yaml := .readable pinnedFile }

/-- The repo, at its default branch and at the commit. -/
def pinnedWorld : World where
  workspace := "/shop"
  workspaceName := "shop"
  toLowercase text := text
  remotes :=
    [{ url := "https://example.com/geo.git", reference := none, facts := { head := some "main" } },
      { url := "https://example.com/geo.git", reference := some "0123abc",
        facts := { head := some "0123abc" } }]
  git := fun _ => true
  images := fun _ => .ok ()

def geoClone : Clone where
  source := true
  folder := "geo@0123abc"
  url := "https://example.com/geo.git"
  reference := some "0123abc"

/-- A pull of all, up to its images. -/
def pinnedRun : List Event := .start .all :: List.replicate 9 (.act 0 true)

/-- It leaves the commit. -/
theorem settled_pull_whole_pinned : ∃ final,
    (Execution.run pinnedWorld.step { disk := pinnedDisk } (pinnedRun ++ [.act 0 true])).jobs[0]? =
      some final ∧ final.phase = .settled (.ok ()) ∧
    Complete pinnedWorld
      (Execution.run pinnedWorld.step { disk := pinnedDisk } (pinnedRun ++ [.act 0 true]))
      final := by
  have before : ((Execution.run pinnedWorld.step { disk := pinnedDisk } pinnedRun).jobs[0]?).any
      (fun job => job.phase.isRunning) = true := by
    decide +kernel
  have after : ((Execution.run pinnedWorld.step { disk := pinnedDisk }
      (pinnedRun ++ [.act 0 true])).jobs[0]?).any
        (fun job => decide (job.phase = .settled (.ok ()))) = true := by
    decide +kernel
  obtain ⟨job, found, running⟩ := (Option.any_eq_true _ _).mp before
  obtain ⟨final, settles, well⟩ := (Option.any_eq_true _ _).mp after
  exact ⟨final, settles, of_decide_eq_true well, settled_pull_whole pinnedWorld pinnedDisk
    (by decide +kernel) found running settles (of_decide_eq_true well)⟩

/-- fghjd stops between the clone and its commit; the next pull finds the `.git`. -/
def stoppedRun : List Event :=
  .start .all :: List.replicate 6 (.act 0 true) ++ [.stop, .start .all, .act 1 true]

/-- A pull after a stop settles well with the default branch where a commit was asked for. -/
theorem stopped_clone_trusted : ¬∀ world disk events id gets job final,
    (Execution.run (World.step world) { disk } events).jobs[id]? = some job →
      job.phase.isRunning = true →
        (Execution.run (World.step world) { disk } (events ++ [.act id gets])).jobs[id]? =
            some final →
          final.phase = .settled (.ok ()) →
            Complete world (Execution.run (World.step world) { disk } (events ++ [.act id gets]))
              final := by
  intro claim
  have before : ((Execution.run pinnedWorld.step { disk := pinnedDisk } stoppedRun).jobs[1]?).any
      (fun job => job.phase.isRunning) = true := by
    decide +kernel
  have after : ((Execution.run pinnedWorld.step { disk := pinnedDisk }
      (stoppedRun ++ [.act 1 true])).jobs[1]?).any
        (fun job => decide (job.phase = .settled (.ok ()) ∧ .clone geoClone ∈ job.demands ∧
          job.changed geoClone.place = false)) = true := by
    decide +kernel
  have half : (Execution.run pinnedWorld.step { disk := pinnedDisk }
      (stoppedRun ++ [.act 1 true])).standing geoClone.place = .begun 0 geoClone .tree := by
    decide +kernel
  obtain ⟨job, found, running⟩ := (Option.any_eq_true _ _).mp before
  obtain ⟨final, settles, facts⟩ := (Option.any_eq_true _ _).mp after
  obtain ⟨well, asked, unchanged⟩ := of_decide_eq_true facts
  have complete :=
    claim pinnedWorld pinnedDisk stoppedRun 1 true job final found running settles well
  rcases complete.met _ asked with user | ⟨theirs, -⟩ | ⟨made, whole, -⟩
  · exact Bool.false_ne_true (unchanged.symm.trans user)
  · cases half.symm.trans theirs
  · cases half.symm.trans whole

end Pull
end Fghj
