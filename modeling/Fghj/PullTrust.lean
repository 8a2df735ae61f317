import Fghj.PullHistory

/-!
# What pulls rely on

A pull takes what it finds for what it looks for by the folder's name, its origin and its `.git`.
None of these tells a finished clone from one that git has begun: another pull may be at it, or git
ended with fghjd in the middle of it. What a pull knows of the places it was asked for stays true
while the others go on, where nothing but finished clones is trusted.
-/

namespace Fghj
namespace Pull

open Std (ExtTreeMap)
open Checkouts World

namespace World

variable (world : World)

/-! ## What is promised and on what condition -/

/-- What is told of a place is the user's, or a finished clone of the same remote at the same
reference. -/
def Finished (clone : Clone) : Standing → Prop
  | .theirs => True
  | .begun _ _ _ => False
  | .whole made => world.sameRemote made.url clone.url = true ∧
      (clone.source = true → made.reference = clone.reference)

instance (clone : Clone) (standing : Standing) : Decidable (world.Finished clone standing) := by
  cases standing with
  | theirs => exact inferInstanceAs (Decidable True)
  | begun id begun stage => exact inferInstanceAs (Decidable False)
  | whole made => exact inferInstanceAs (Decidable (_ ∧ _))

/-- The clones that the next step of a pull takes to be there because of what it finds. -/
def trusts (history : History) (job : Job) : List Clone :=
  match job.phase with
  | .resolving =>
      match world.resolve history.disk job.order with
      | .present demands => demands.filterMap fun demand =>
          match demand with
          | .repo _ => none
          | .clone clone => some clone
      | .failed _ | .missing _ => []
  | .asking (.ok clone :: _) =>
      match history.disk.find clone.place with
      | none => []
      | some folder =>
          match world.ensureCheckoutIs clone folder with
          | .ok () => [clone]
          | .error _ => []
  | .spawned clone _ => if (history.disk.find clone.place).isSome then [clone] else []
  | _ => []

/-- Nothing is cloned over the folder of sources, where git would remove them all if it failed. -/
def isApart : Phase → Bool
  | .spawned clone _ => clone.place != .folder sourcesDir
  | _ => true

/-- A step of a pull takes nothing for a finished clone that is none. -/
def Sure (history : History) : Event → Prop
  | .act id _ => ∀ job ∈ history.jobs[id]?,
      (∀ clone ∈ world.trusts history job,
        world.Finished clone (history.standing clone.place)) ∧ isApart job.phase = true
  | .start _ | .stop | .user _ => True

instance (history : History) : ∀ event, Decidable (world.Sure history event)
  | .act id _ => inferInstanceAs (Decidable (∀ job ∈ history.jobs[id]?,
      (∀ clone ∈ world.trusts history job,
        world.Finished clone (history.standing clone.place)) ∧ isApart job.phase = true))
  | .start _ => inferInstanceAs (Decidable True)
  | .stop => inferInstanceAs (Decidable True)
  | .user _ => inferInstanceAs (Decidable True)

end World

def Demand.place : Demand → Place
  | .repo folder => .folder folder
  | .clone asked => asked.place

/-- A clone of the remote is what is asked for; a source is one at its own reference. -/
def Demand.Fits (world : World) (remote : Remote) : Demand → Prop
  | .repo _ => True
  | .clone asked => world.sameRemote remote.url asked.url = true ∧
      (asked.source = true → remote.reference = asked.reference)

/-- What stands at a place is the user's, or the whole checkout of a remote that fits. -/
def Stands (world : World) (history : History) (demand : Demand) : Prop :=
  (history.standing demand.place = .theirs ∧ (history.disk.find demand.place).isSome) ∨
    ∃ made, history.standing demand.place = .whole made ∧ ∃ remote ∈ world.remotes,
      history.disk.find demand.place = some remote.checkout ∧ demand.Fits world remote

/-- The demand of a pull is met, unless the user has been at the checkout since the pull began. -/
def Met (world : World) (history : History) (job : Job) (demand : Demand) : Prop :=
  job.changed demand.place = true ∨ Stands world history demand

/-! ## What holds all along -/

/-- The clones that a pull has still to ask for. -/
def Job.waiting (job : Job) : List (Except String Clone) :=
  match job.phase with
  | .asking queue => queue
  | .spawned clone queue | .cloning clone _ queue => .ok clone :: queue
  | .resolving | .images | .settled _ | .stopped => []

/-- What a pull was asked for on a disk: all that is there, and of a node what was missing. -/
def Covers (world : World) (disk : Disk) (job : Job) : Prop :=
  match world.resolve disk job.order with
  | .failed _ => False
  | .missing requests => (∃ id, job.order = .node id) ∧
      ∀ clone, .ok clone ∈ requests → .clone clone ∈ job.demands
  | .present demands => demands ⊆ job.demands

/-- What the disk lacked was asked for, or is next. -/
def Pending (world : World) (job : Job) : Prop :=
  ∃ disk requests, job.resolved = some disk ∧ world.resolve disk job.order = .missing requests ∧
    ∀ clone, .ok clone ∈ requests → .clone clone ∈ job.demands ∨ .ok clone ∈ job.waiting

/-- A pull has resolved a disk, and asks for what it lacked. -/
def Answers (world : World) (job : Job) : Prop :=
  match job.phase with
  | .asking _ | .spawned _ _ | .cloning _ _ _ => Pending world job
  | .images => ∃ disk, job.resolved = some disk ∧ Covers world disk job
  | .resolving | .settled _ | .stopped => True

/-- What a pull knows: the folder it clones into is its own, and what it was asked for is there. -/
structure JobSound (world : World) (history : History) (id : Nat)
    (job : Job) : Prop where
  own : ∀ clone stage queue, job.phase = .cloning clone stage queue →
    job.changed clone.place = true ∨ history.standing clone.place = .begun id clone stage
  met : job.phase.isRunning = true → ∀ demand ∈ job.demands, Met world history job demand
  answers : Answers world job

structure Invariant (world : World) (history : History) : Prop where
  /-- A finished clone is the checkout of its remote. -/
  whole : ∀ place made, history.standing place = .whole made → ∃ remote ∈ world.remotes,
    remote.url = made.url ∧ remote.reference = made.reference ∧
      history.disk.find place = some remote.checkout
  /-- A clone that was begun has its folder; a file is in it only once a tree is checked out. -/
  begun : ∀ place id clone stage, history.standing place = .begun id clone stage →
    clone.place = place ∧ place ≠ .folder sourcesDir ∧ (stage = .tree → clone.source = true) ∧
      ∃ folder, history.disk.find place = some folder ∧ (stage ≠ .tree → folder.yaml = .absent)
  jobs : ∀ id job, history.jobs[id]? = some job → JobSound world history id job

variable {world : World} {history : History}

/-- A place is as it was, unless the user was there, nothing stood there, or it was being cloned. -/
def Spared (before after : History) (job : Job) (place : Place) : Prop :=
  job.changed place = true ∨ before.disk.find place = none ∨
    (∃ id clone stage, before.standing place = .begun id clone stage) ∨
    (after.standing place = before.standing place ∧ after.disk.find place = before.disk.find place)

/-- What is met stays so. -/
theorem Met.spared {before after : History} {job later : Job} {demand : Demand}
    (met : Met world before job demand) (spared : Spared before after later demand.place)
    (changed : job.changed demand.place = true → later.changed demand.place = true) :
    Met world after later demand := by
  rcases met with changedHere | stands
  · exact .inl (changed changedHere)
  rcases spared with user | absent | ⟨id, clone, stage, begun⟩ | ⟨standing, found⟩
  · exact .inl user
  · rcases stands with ⟨-, here⟩ | ⟨made, -, remote, -, here, -⟩
    · rw [absent] at here
      cases here
    · cases absent.symm.trans here
  · rcases stands with ⟨theirs, -⟩ | ⟨made, whole, -⟩
    · cases begun.symm.trans theirs
    · cases begun.symm.trans whole
  · refine .inr ?_
    rw [Stands, standing, found]
    exact stands

theorem Answers.congr {job later : Job} (answers : Answers world job)
    (same : later.phase = job.phase) (order : later.order = job.order)
    (asked : later.demands = job.demands) (resolved : later.resolved = job.resolved) :
    Answers world later := by
  simpa only [Answers, Pending, Covers, Job.waiting, same, order, asked, resolved] using answers

variable {job : Job}

/-- The same is still to be asked for. -/
theorem Pending.of_waiting (pending : Pending world job) {phase : Phase}
    (waits : { job with phase : Job }.waiting = job.waiting) :
    Pending world { job with phase } := by
  obtain ⟨disk, requests, seen, missing, asked⟩ := pending
  exact ⟨disk, requests, seen, missing, fun clone listed => waits ▸ asked clone listed⟩

/-- The first that was to be asked for is there. -/
theorem Pending.next (pending : Pending world job) {clone : Clone}
    {queue : List (Except String Clone)} (waits : job.waiting = .ok clone :: queue) :
    Pending world (job.next clone queue) := by
  obtain ⟨disk, requests, seen, missing, asked⟩ := pending
  refine ⟨disk, requests, seen, missing, fun other listed => ?_⟩
  rcases asked other listed with before | waiting
  · exact .inl (List.mem_cons_of_mem _ before)
  · rw [waits] at waiting
    rcases List.mem_cons.mp waiting with first | later
    · obtain rfl := Except.ok.inj first
      exact .inl List.mem_cons_self
    · exact .inr later

/-- With nothing left to ask for, a node's pull has asked for what it lacked. -/
theorem Pending.asked (pending : Pending world job) (waits : job.waiting = []) :
    Answers world job.asked := by
  obtain ⟨disk, requests, seen, missing, asked⟩ := pending
  cases order : job.order with
  | all => simp [Answers, Job.asked, order]
  | flow name => simp [Answers, Job.asked, order]
  | node id =>
      simp only [Answers, Job.asked, order, Covers]
      rw [order] at missing
      refine ⟨disk, seen, ?_⟩
      simp only [missing]
      refine ⟨⟨id, rfl⟩, fun clone listed => (asked clone listed).resolve_right ?_⟩
      rw [waits]
      exact List.not_mem_nil

variable {id : Nat}

/-- A pull goes on from one state to the next with all it knows. -/
theorem JobSound.spared {before after : History} {job later : Job}
    (sound : JobSound world before id job) (same : later.phase = job.phase)
    (order : later.order = job.order) (asked : later.demands = job.demands)
    (resolved : later.resolved = job.resolved)
    (changed : ∀ place, job.changed place = true → later.changed place = true)
    (spared : ∀ place, Spared before after later place)

    (own : ∀ clone stage, before.standing clone.place = .begun id clone stage →
      later.changed clone.place = true ∨ after.standing clone.place = .begun id clone stage) :
    JobSound world after id later where
  own := by
    intro clone stage queue phase
    rcases sound.own clone stage queue (same ▸ phase) with user | begun
    · exact .inl (changed _ user)
    · exact own clone stage begun
  met := by
    intro running demand listed
    rw [same] at running
    rw [asked] at listed
    exact (sound.met running demand listed).spared (spared _) (changed _)
  answers := sound.answers.congr same order asked resolved

/-- A pull that is at no clone knows what it was asked for. -/
theorem JobSound.of_met (idle : ∀ clone stage queue, job.phase ≠ .cloning clone stage queue)
    (met : ∀ demand ∈ job.demands, Met world history job demand) (answers : Answers world job) :
    JobSound world history id job where
  own := fun clone stage queue phase => absurd phase (idle clone stage queue)
  met := fun _ => met
  answers := answers

theorem JobSound.of_settled (settled : job.phase.isRunning = false) :
    JobSound world history id job where
  own := by
    intro clone stage queue phase
    rw [phase] at settled
    cases settled
  met := by
    intro running
    rw [settled] at running
    cases running
  answers := by
    unfold Answers
    cases phase : job.phase with
    | settled result => trivial
    | stopped => trivial
    | _ =>
        rw [phase] at settled
        cases settled

theorem invariant_new (world : World) (disk : Disk) : Invariant world { disk } where
  whole := by
    intro place made whole
    cases whole
  begun := by
    intro place id clone stage begun
    cases begun
  jobs := by
    intro id job found
    simp at found

/-! ## Steps -/

theorem JobSound.put {id other : Nat} {job held : Job}
    (sound : JobSound world history id job) :
    JobSound world (history.put other held) id job :=
  ⟨sound.own, sound.met, sound.answers⟩

theorem Invariant.put (invariant : Invariant world history)
    (sound : JobSound world history id job) :
    Invariant world (history.put id job) where
  whole := invariant.whole
  begun := invariant.begun
  jobs := by
    intro other found listed
    rw [History.put, List.getElem?_set] at listed
    split at listed
    · rename_i same
      split at listed
      · obtain rfl := Option.some.inj listed
        exact same ▸ sound.put
      · cases listed
    · exact (invariant.jobs other found listed).put

/-- What the user changes is no one's clone any more. -/
theorem Invariant.edit (invariant : Invariant world history) (edit : Edit) :
    Invariant world (history.edit edit) where
  whole := by
    intro place made whole
    simp only [History.edit] at whole ⊢
    split at whole
    · cases whole
    · rename_i untouched
      rw [edit.frame _ _ (Bool.eq_false_iff.mpr untouched)]
      exact invariant.whole place made whole
  begun := by
    intro place id clone stage begun
    simp only [History.edit] at begun ⊢
    split at begun
    · cases begun
    · rename_i untouched
      rw [edit.frame _ _ (Bool.eq_false_iff.mpr untouched)]
      exact invariant.begun place id clone stage begun
  jobs := by
    intro id later listed
    simp only [History.edit, List.getElem?_map, Option.map_eq_some_iff] at listed
    obtain ⟨job, found, rfl⟩ := listed
    refine (invariant.jobs id job found).spared rfl rfl rfl rfl (fun place changed => ?_)
      (fun place => ?_) fun clone stage begun => ?_
    · exact Bool.or_eq_true_iff.mpr (.inl changed)
    · cases touched : edit.touched place with
      | true => exact .inl (Bool.or_eq_true_iff.mpr (.inr touched))
      | false =>
          refine .inr (.inr (.inr ⟨?_, edit.frame _ _ touched⟩))
          simp only [History.edit, touched, Bool.false_eq_true, if_false]
    · cases touched : edit.touched clone.place with
      | true => exact .inl (Bool.or_eq_true_iff.mpr (.inr touched))
      | false =>
          refine .inr ?_
          simpa only [History.edit, touched, Bool.false_eq_true, if_false] using begun

theorem standing_place (history : History) (id : Nat) (job : Job) (disk : Disk) (place : Place)
    (standing : Standing) :
    (history.place id job disk place standing).standing place = standing := by
  simp [History.place]

theorem standing_place_of_ne (id : Nat) (job : Job) (disk : Disk) {place other : Place}
    (standing : Standing) (different : other ≠ place) :
    (history.place id job disk place standing).standing other = history.standing other := by
  simp [History.place, different]

/-- A pull's git has only its own folder, or one that is not there yet. -/
structure OwnFolder (history : History) (id : Nat) (disk : Disk) (place : Place) : Prop where
  own : history.disk.find place = none ∨
    ∃ clone stage, history.standing place = .begun id clone stage
  elsewhere : ∀ other, other ≠ place →
    history.disk.find other = none ∨ disk.find other = history.disk.find other

theorem OwnFolder.spared {disk : Disk} {place : Place} {standing : Standing}
    (own : OwnFolder history id disk place) (job later : Job) (other : Place) :
    Spared history (history.place id job disk place standing) later other := by
  by_cases here : other = place
  · subst here
    rcases own.own with absent | ⟨clone, stage, begun⟩
    · exact .inr (.inl absent)
    · exact .inr (.inr (.inl ⟨id, clone, stage, begun⟩))
  · rcases own.elsewhere other here with absent | same
    · exact .inr (.inl absent)
    · exact .inr (.inr (.inr ⟨standing_place_of_ne _ _ _ _ here, same⟩))

theorem Invariant.place (invariant : Invariant world history) {disk : Disk} {place : Place}
    {standing : Standing} (own : OwnFolder history id disk place)
    (whole : ∀ made, standing = .whole made → ∃ remote ∈ world.remotes, remote.url = made.url ∧
      remote.reference = made.reference ∧ disk.find place = some remote.checkout)
    (begun : ∀ other clone stage, standing = .begun other clone stage →
      clone.place = place ∧ place ≠ .folder sourcesDir ∧ (stage = .tree → clone.source = true) ∧
        ∃ folder, disk.find place = some folder ∧ (stage ≠ .tree → folder.yaml = .absent))
    (sound : JobSound world (history.place id job disk place standing) id job) :
    Invariant world (history.place id job disk place standing) where
  whole := by
    intro other made found
    by_cases here : other = place
    · subst here
      exact whole made ((standing_place ..).symm.trans found)
    · have before := (standing_place_of_ne _ _ _ _ here).symm.trans found
      obtain ⟨remote, listed, url, reference, stands⟩ := invariant.whole other made before
      refine ⟨remote, listed, url, reference, ?_⟩
      rcases own.elsewhere other here with absent | same
      · cases absent.symm.trans stands
      · exact same.trans stands
  begun := by
    intro other job clone stage found
    by_cases here : other = place
    · subst here
      exact begun job clone stage
        ((standing_place ..).symm.trans found)
    · have before := (standing_place_of_ne _ _ _ _ here).symm.trans found
      obtain ⟨named, notSources, source, folder, stands, bare⟩ :=
        invariant.begun other job clone stage before
      refine ⟨named, notSources, source, folder, ?_, bare⟩
      rcases own.elsewhere other here with absent | same
      · cases absent.symm.trans stands
      · exact same.trans stands
  jobs := by
    intro other found listed
    simp only [History.place, List.getElem?_set] at listed
    split at listed
    · rename_i same
      split at listed
      · obtain rfl := Option.some.inj listed
        exact same ▸ sound
      · cases listed
    · rename_i different
      refine (invariant.jobs other found listed).spared rfl rfl rfl rfl (fun _ changed => changed)
        (own.spared job found) fun clone stage begun => .inr ?_
      -- the folder that another pull clones into is there, and is that one's
      have elsewhere : clone.place ≠ place := by
        intro here
        obtain ⟨-, -, -, folder, stands, -⟩ := invariant.begun _ _ _ _ begun
        rcases own.own with absent | ⟨mine, reached, begunHere⟩
        · rw [here, absent] at stands
          cases stands
        · rw [here, begunHere] at begun
          exact different (Standing.begun.inj begun).1
      exact (standing_place_of_ne _ _ _ _ elsewhere).trans begun

end Pull
end Fghj
