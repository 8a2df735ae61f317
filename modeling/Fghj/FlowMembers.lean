import Fghj.Library.Traversal
import Fghj.Universe

/-!
# What a flow names

A flow's entries name services, other flows and whole repos. The resolver follows them with two
recursive searches, one through flows and one through includes, that never enter the same place
twice; they find exactly what the entries stand for, and complain of each entry of the flow itself
that stands for nothing.
-/

namespace Fghj
namespace Resolver

open Std

namespace ResolveCtx

variable (ctx : ResolveCtx)

/-! ## What entries name -/

/-- What an entry of a flow stands for. -/
inductive Meaning where
  | service (id : String)
  | flow (flow : String × String)
  /-- All of an included repo. -/
  | whole (repo : String)
  | nothing (why : String)

/-- What an entry of a repo's flow names: a service before a flow, and a flow before an include. -/
def meaning (repo : String) (component : ComponentConfig) (entry : String) : Meaning :=
  let unknown : Meaning :=
    .nothing ("names '" ++ entry ++ "', but '" ++ repo ++
      "' has no service, flow or include by that name")
  match Target.parse entry with
  | .bare name =>
      if component.services.contains name then .service (nodeId name repo)
      else if component.flows.contains name then .flow (repo, name)
      else
        match ctx.aliasTarget repo name with
        | some target => .whole target
        | none => unknown
  | .qualified owner name =>
      match ctx.aliasTarget repo owner with
      | some target =>
          match ctx.checkForeignFlow owner target name with
          | .ok () => .flow (target, name)
          | .error message => .nothing message
      | none => unknown

/-- The flow has an entry that stands for this. -/
def Names (flow : String × String) (meant : Meaning) : Prop :=
  ∃ component entries entry, ctx.scanned[flow.1]? = some component ∧
    component.flows[flow.2]? = some entries ∧ entry ∈ entries ∧
      ctx.meaning flow.1 component entry = meant

/-- The nodes of a repo and of what it includes; a repo that is not pulled is its stub. -/
inductive RepoMember : String → String → Prop
  | stub {repo : String} (absent : ¬ctx.isScanned repo) (known : repo ∈ ctx.nodes) :
      RepoMember repo repo
  | own {repo id : String} {node : Node} (scanned : ctx.isScanned repo)
      (filed : ctx.nodes[id]? = some node) (downloaded : node.downloaded)
      (path : node.localPath = some repo) : RepoMember repo id
  | included {repo target id : String} (scanned : ctx.isScanned repo)
      (includes : target ∈ ctx.includedBy repo) (member : RepoMember target id) : RepoMember repo id

/-- The members a flow of a repo names. -/
inductive FlowMember : String × String → String → Prop
  | stub {repo flow : String} (absent : ¬ctx.isScanned repo) (known : repo ∈ ctx.nodes) :
      FlowMember (repo, flow) repo
  | service {flow : String × String} {id : String} (named : ctx.Names flow (.service id)) :
      FlowMember flow id
  | whole {flow : String × String} {repo id : String} (named : ctx.Names flow (.whole repo))
      (member : ctx.RepoMember repo id) : FlowMember flow id
  | flow {flow other : String × String} {id : String} (named : ctx.Names flow (.flow other))
      (member : FlowMember other id) : FlowMember flow id

/-! ## Members of a repo -/

/-- What a repo adds by itself. -/
def ownMembers (repo : String) : List String :=
  if ctx.isScanned repo then
    (ctx.nodes.toList.filter fun entry =>
      entry.2.downloaded && entry.2.localPath == some repo).map Prod.fst
  else if ctx.nodes.contains repo then [repo] else []

/-- The search for the members of a repo. -/
def repoPlan : Traversal.Plan String String (List String × List String) where
  seen := Prod.fst
  enter found repo := (repo :: found.1, found.2 ++ ctx.ownMembers repo)
  items repo := if ctx.isScanned repo then ctx.includedBy repo else []
  leads _ target := some target
  act _ _ found _ := found
  seen_enter _ _ := rfl
  seen_act _ _ _ _ := rfl

theorem repoMembers_eq_traverse (fuel depth : Nat) (found : List String × List String)
    (repo : String) :
    ctx.repoMembers fuel found repo = Traversal.traverse ctx.repoPlan fuel depth found repo := by
  induction fuel generalizing depth found repo with
  | zero => rfl
  | succ fuel ih =>
      rw [repoMembers, Traversal.traverse]
      by_cases seen : repo ∈ found.1
      · rw [if_pos seen, if_pos (show repo ∈ ctx.repoPlan.seen found from seen)]
      · rw [if_neg seen, if_neg (show repo ∉ ctx.repoPlan.seen found from seen)]
        have follow : ctx.repoMembers fuel =
            Traversal.dispatch ctx.repoPlan (Traversal.traverse ctx.repoPlan fuel (depth + 1)) depth
              repo := by
          funext found target
          rw [ih (depth + 1)]
          rfl
        by_cases scanned : ctx.isScanned repo
        · simp only [scanned, if_true, repoPlan, ownMembers]
          rw [follow]
          rfl
        · simp only [scanned, repoPlan, ownMembers]
          cases ctx.nodes.contains repo <;> simp

/-- The including repo of every include, each as often as it includes. -/
def includers : List String :=
  ctx.includes.toList.flatMap fun entry => entry.2.toList.map fun _ => entry.1

theorem includers_length : ctx.includers.length + 2 = ctx.repoFuel := by
  simp [includers, repoFuel, List.length_flatMap]

theorem mem_includers {repo : String} (some_items : ctx.repoPlan.items repo ≠ []) :
    repo ∈ ctx.includers := by
  have includes : ctx.includedBy repo ≠ [] := by
    intro none
    simp [repoPlan, none] at some_items
  obtain ⟨target, listed⟩ := List.exists_mem_of_ne_nil _ includes
  obtain ⟨entry, member, -⟩ := List.mem_map.mp listed
  cases found : ctx.includes[repo]? with
  | none =>
      rw [found, Option.getD_none] at member
      cases ExtTreeMap.mem_toList_iff_getElem?_eq_some.mp member
  | some resolved =>
      rw [found, Option.getD_some] at member
      exact List.mem_flatMap.mpr ⟨(repo, resolved),
        ExtTreeMap.mem_toList_iff_getElem?_eq_some.mpr found,
        List.mem_map.mpr ⟨entry, member, rfl⟩⟩

theorem mem_ownMembers {repo id : String} :
    id ∈ ctx.ownMembers repo ↔
      (¬ctx.isScanned repo ∧ repo ∈ ctx.nodes ∧ id = repo) ∨
      (ctx.isScanned repo ∧ ∃ node, ctx.nodes[id]? = some node ∧ node.downloaded ∧
        node.localPath = some repo) := by
  rw [ownMembers]
  by_cases scanned : ctx.isScanned repo
  · simp only [scanned, if_true, List.mem_map, List.mem_filter, not_true_eq_false, false_and,
      false_or, true_and, Prod.exists, ExtTreeMap.mem_toList_iff_getElem?_eq_some,
      Bool.and_eq_true, beq_iff_eq, exists_eq_right, exists_and_right, exists_eq_right]
  · by_cases known : repo ∈ ctx.nodes <;> simp [scanned, known, ExtTreeMap.contains_iff_mem]

/-- A repo's members are what the repos it leads to have of their own. -/
theorem repoMember_iff {repo id : String} :
    ctx.RepoMember repo id ↔ ∃ other,
      Relation.ReflTransGen (Traversal.Next ctx.repoPlan) repo other ∧
        id ∈ ctx.ownMembers other := by
  constructor
  · intro member
    induction member with
    | stub absent known => exact ⟨_, .refl, ctx.mem_ownMembers.mpr (.inl ⟨absent, known, rfl⟩)⟩
    | own scanned filed downloaded path =>
        exact ⟨_, .refl, ctx.mem_ownMembers.mpr (.inr ⟨scanned, _, filed, downloaded, path⟩)⟩
    | @included repo target id scanned includes _ ih =>
        obtain ⟨other, reached, own⟩ := ih
        have next : Traversal.Next ctx.repoPlan repo target :=
          ⟨target, by simpa [repoPlan, scanned] using includes, rfl⟩
        exact ⟨other, .head next reached, own⟩
  · rintro ⟨other, reached, own⟩
    induction reached using Relation.ReflTransGen.head_induction_on with
    | refl =>
        rcases ctx.mem_ownMembers.mp own with ⟨absent, known, rfl⟩ |
          ⟨scanned, node, filed, downloaded, path⟩
        · exact .stub absent known
        · exact .own scanned filed downloaded path
    | @head repo target next _ member =>
        obtain ⟨item, listed, leads⟩ := next
        obtain rfl : item = target := Option.some.inj leads
        by_cases scanned : ctx.isScanned repo
        · exact .included scanned (by simpa [repoPlan, scanned] using listed) member
        · simp [repoPlan, scanned] at listed

/-- The search finds the members of a repo. -/
theorem mem_repoMembers {out : List String} {repo id : String} :
    id ∈ (ctx.repoMembers ctx.repoFuel ([], out) repo).2 ↔ id ∈ out ∨ ctx.RepoMember repo id := by
  have enough : ctx.includers.length < ctx.repoFuel := by
    have := ctx.includers_length
    omega
  have collected := Traversal.collects_reachable (fun found id => id ∈ found.2)
    (fun repo id => id ∈ ctx.ownMembers repo) (fun _ _ _ => False)
    (fun found repo id => List.mem_append) (fun _ _ _ _ _ leads => by cases leads)
    (fun repo => ctx.mem_includers) enough 0 (rfl : ctx.repoPlan.seen ([], out) = []) repo id
  rw [ctx.repoMembers_eq_traverse ctx.repoFuel 0, repoMember_iff, collected]
  simp only [Traversal.Gives, and_false, exists_false, or_false]

/-! ## Members of a flow -/

/-- The search for the members of a flow. -/
def flowPlan : Traversal.Plan (String × String) (ComponentConfig × String) Expansion where
  seen := Expansion.seen
  enter found flow :=
    { found with
      seen := flow :: found.seen
      out :=
        if !ctx.isScanned flow.1 && ctx.nodes.contains flow.1 then found.out ++ [flow.1]
        else found.out }
  items flow :=
    match ctx.scanned[flow.1]? with
    | none => []
    | some component => ((component.flows[flow.2]?).getD []).map fun entry => (component, entry)
  leads flow item :=
    match ctx.meaning flow.1 item.1 item.2 with
    | .flow other => some other
    | _ => none
  act depth flow found item :=
    match ctx.meaning flow.1 item.1 item.2 with
    | .service id => { found with out := found.out ++ [id] }
    | .flow _ => found
    | .whole repo => { found with out := (ctx.repoMembers ctx.repoFuel ([], found.out) repo).2 }
    | .nothing why => if depth = 0 then { found with errors := found.errors ++ [why] } else found
  seen_enter _ _ := rfl
  seen_act depth flow found item := by
    split
    · rfl
    · rfl
    · rfl
    · split <;> rfl

theorem expandFlow_eq_traverse (fuel depth : Nat) (found : Expansion) (flow : String × String) :
    ctx.expandFlow fuel depth found flow =
      Traversal.traverse ctx.flowPlan fuel depth found flow := by
  induction fuel generalizing depth found flow with
  | zero => rfl
  | succ fuel ih =>
      obtain ⟨repo, name⟩ := flow
      rw [expandFlow, Traversal.traverse]
      by_cases seen : (repo, name) ∈ found.seen
      · rw [if_pos seen, if_pos (show (repo, name) ∈ ctx.flowPlan.seen found from seen)]
      · rw [if_neg seen, if_neg (show (repo, name) ∉ ctx.flowPlan.seen found from seen)]
        cases scans : ctx.scanned[repo]? with
        | none =>
            have unscanned : ctx.isScanned repo = false := by
              simp [isScanned, ExtTreeMap.contains_eq_isSome_getElem?, scans]
            simp only [flowPlan, scans, unscanned, List.foldl_nil, Bool.not_false, Bool.true_and]
            split <;> rfl
        | some component =>
            have scanned : ctx.isScanned repo = true := by
              simp [isScanned, ExtTreeMap.contains_eq_isSome_getElem?, scans]
            have entered : ctx.flowPlan.enter found (repo, name) =
                { found with seen := (repo, name) :: found.seen } := by
              simp [flowPlan, scanned]
            have items : ctx.flowPlan.items (repo, name) =
                ((component.flows[name]?).getD []).map fun entry => (component, entry) := by
              simp [flowPlan, scans]
            rw [entered, items, List.foldl_map]
            dsimp only
            congr 1
            funext found entry
            have follow : Traversal.traverse ctx.flowPlan fuel (depth + 1) =
                ctx.expandFlow fuel (depth + 1) := by
              funext found flow
              exact (ih (depth + 1) found flow).symm
            rw [follow]
            simp only [Traversal.dispatch, flowPlan, meaning]
            cases Target.parse entry with
            | bare name =>
                dsimp only
                split
                · rfl
                split
                · rfl
                cases ctx.aliasTarget repo name with
                | none => rfl
                | some target => rfl
            | qualified owner name =>
                dsimp only
                cases ctx.aliasTarget repo owner with
                | none => rfl
                | some target =>
                    dsimp only
                    cases ctx.checkForeignFlow owner target name with
                    | error message => rfl
                    | ok passed => rfl

/-- Every flow of every repo. -/
def namers : List (String × String) :=
  ctx.scanned.toList.flatMap fun repo => repo.2.flows.toList.map fun flow => (repo.1, flow.1)

theorem namers_length : ctx.namers.length + 2 = ctx.flowFuel := by
  simp [namers, flowFuel, List.length_flatMap]

variable {flow : String × String}

theorem mem_namers :
    flow ∈ ctx.namers ↔ ∃ component entries, ctx.scanned[flow.1]? = some component ∧
      component.flows[flow.2]? = some entries := by
  obtain ⟨repo, name⟩ := flow
  simp only [namers, List.mem_flatMap, List.mem_map, Prod.exists, Prod.mk.injEq,
    ExtTreeMap.mem_toList_iff_getElem?_eq_some]
  constructor
  · rintro ⟨repo, component, scans, name, entries, declares, rfl, rfl⟩
    exact ⟨component, entries, scans, declares⟩
  · rintro ⟨component, entries, scans, declares⟩
    exact ⟨repo, component, scans, name, entries, declares, rfl, rfl⟩

/-- The items of a flow are its entries. -/
theorem mem_flowPlan_items {item : ComponentConfig × String} :
    item ∈ ctx.flowPlan.items flow ↔ ∃ entries, ctx.scanned[flow.1]? = some item.1 ∧
      item.1.flows[flow.2]? = some entries ∧ item.2 ∈ entries := by
  simp only [flowPlan]
  cases scans : ctx.scanned[flow.1]? with
  | none => simp
  | some component =>
      simp only [List.mem_map, Option.some.injEq]
      constructor
      · rintro ⟨entry, member, rfl⟩
        cases declares : component.flows[flow.2]? with
        | none => simp [declares] at member
        | some entries => exact ⟨entries, rfl, rfl, by simpa [declares] using member⟩
      · rintro ⟨entries, same, declares, member⟩
        obtain ⟨other, entry⟩ := item
        cases same
        exact ⟨entry, by simpa [declares] using member, rfl⟩

theorem mem_namers_of_items (some_items : ctx.flowPlan.items flow ≠ []) : flow ∈ ctx.namers := by
  obtain ⟨item, listed⟩ := List.exists_mem_of_ne_nil _ some_items
  obtain ⟨entries, scans, declares, -⟩ := ctx.mem_flowPlan_items.mp listed
  exact ctx.mem_namers.mpr ⟨item.1, entries, scans, declares⟩

theorem names_iff {meant : Meaning} :
    ctx.Names flow meant ↔
      ∃ item ∈ ctx.flowPlan.items flow, ctx.meaning flow.1 item.1 item.2 = meant := by
  simp only [Names, mem_flowPlan_items]
  constructor
  · rintro ⟨component, entries, entry, scans, declares, member, means⟩
    exact ⟨(component, entry), ⟨entries, scans, declares, member⟩, means⟩
  · rintro ⟨⟨component, entry⟩, ⟨entries, scans, declares, member⟩, means⟩
    exact ⟨component, entries, entry, scans, declares, member, means⟩

theorem next_flowPlan {flow other : String × String} :
    Traversal.Next ctx.flowPlan flow other ↔ ctx.Names flow (.flow other) := by
  rw [names_iff]
  apply exists_congr
  intro item
  apply and_congr_right
  intro listed
  simp only [flowPlan]
  cases ctx.meaning flow.1 item.1 item.2 <;> simp

/-- What an entry that is no flow adds. -/
def ItemGives (flow : String × String) (item : ComponentConfig × String) (id : String) : Prop :=
  match ctx.meaning flow.1 item.1 item.2 with
  | .service service => id = service
  | .flow _ => False
  | .whole repo => ctx.RepoMember repo id
  | .nothing _ => False

/-- What a flow adds without the flows it names. -/
def FlowGives (flow : String × String) (id : String) : Prop :=
  Traversal.Gives (fun flow id => ¬ctx.isScanned flow.1 ∧ flow.1 ∈ ctx.nodes ∧ id = flow.1)
    ctx.ItemGives ctx.flowPlan flow id

theorem flowGives_iff {id : String} :
    ctx.FlowGives flow id ↔ (¬ctx.isScanned flow.1 ∧ flow.1 ∈ ctx.nodes ∧ id = flow.1) ∨
      ctx.Names flow (.service id) ∨
      ∃ repo, ctx.Names flow (.whole repo) ∧ ctx.RepoMember repo id := by
  simp only [FlowGives, Traversal.Gives, names_iff]
  apply or_congr Iff.rfl
  constructor
  · rintro ⟨item, listed, leads, gives⟩
    simp only [ItemGives] at gives
    split at gives
    · rename_i means
      exact .inl ⟨item, listed, by rw [means, gives]⟩
    · cases gives
    · rename_i means
      exact .inr ⟨_, ⟨item, listed, means⟩, gives⟩
    · cases gives
  · rintro (⟨item, listed, means⟩ | ⟨repo, ⟨item, listed, means⟩, member⟩)
    · exact ⟨item, listed, by simp [flowPlan, means], by simp [ItemGives, means]⟩
    · exact ⟨item, listed, by simp [flowPlan, means], by simpa [ItemGives, means] using member⟩

/-- A flow's members are what the flows it leads to add. -/
theorem flowMember_iff {id : String} :
    ctx.FlowMember flow id ↔ ∃ other,
      Relation.ReflTransGen (Traversal.Next ctx.flowPlan) flow other ∧ ctx.FlowGives other id := by
  constructor
  · intro member
    induction member with
    | stub absent known =>
        exact ⟨_, .refl, ctx.flowGives_iff.mpr (.inl ⟨absent, known, rfl⟩)⟩
    | service named => exact ⟨_, .refl, ctx.flowGives_iff.mpr (.inr (.inl named))⟩
    | whole named member => exact ⟨_, .refl, ctx.flowGives_iff.mpr (.inr (.inr ⟨_, named, member⟩))⟩
    | flow named _ ih =>
        obtain ⟨other, reached, gives⟩ := ih
        exact ⟨other, .head (ctx.next_flowPlan.mpr named) reached, gives⟩
  · rintro ⟨other, reached, gives⟩
    induction reached using Relation.ReflTransGen.head_induction_on with
    | refl =>
        obtain ⟨repo, name⟩ := other
        rcases ctx.flowGives_iff.mp gives with ⟨absent, known, rfl⟩ | named | ⟨repo, named, member⟩
        · exact .stub absent known
        · exact .service named
        · exact .whole named member
    | head next _ member => exact .flow (ctx.next_flowPlan.mp next) member

/-- The search finds the members of a flow. -/
theorem mem_expandFlow {id : String} :
    id ∈ (ctx.expandFlow ctx.flowFuel 0 {} flow).out ↔ ctx.FlowMember flow id := by
  have enough : ctx.namers.length < ctx.flowFuel := by
    have := ctx.namers_length
    omega
  have collected := Traversal.collects_reachable (fun found id => id ∈ found.out)
    (fun flow id => ¬ctx.isScanned flow.1 ∧ flow.1 ∈ ctx.nodes ∧ id = flow.1) ctx.ItemGives
    (fun found flow id => ?_) (fun depth flow found item id leads => ?_)
    (fun flow => ctx.mem_namers_of_items) enough 0 (rfl : ctx.flowPlan.seen {} = []) flow id
  · rw [ctx.expandFlow_eq_traverse, flowMember_iff, collected]
    simp [FlowGives]
  · simp only [flowPlan]
    by_cases scanned : ctx.isScanned flow.1
    · simp [scanned]
    · by_cases known : flow.1 ∈ ctx.nodes <;> simp [scanned, known, ExtTreeMap.contains_iff_mem]
  · simp only [flowPlan, ItemGives] at leads ⊢
    cases means : ctx.meaning flow.1 item.1 item.2 with
    | service service => simp
    | flow other => simp [means] at leads
    | whole repo => exact ctx.mem_repoMembers
    | nothing why =>
        dsimp only
        split <;> simp

/-- Why an entry names nothing, if it does. -/
def complaint (repo : String) (component : ComponentConfig) (entry : String) : Option String :=
  match ctx.meaning repo component entry with
  | .nothing why => some why
  | _ => none

theorem complaint_eq_none_of_leads {item : ComponentConfig × String}
    (leads : (ctx.flowPlan.leads flow item).isSome) :
    ctx.complaint flow.1 item.1 item.2 = none := by
  simp only [flowPlan, complaint] at leads ⊢
  cases means : ctx.meaning flow.1 item.1 item.2 with
  | nothing why => simp [means] at leads
  | _ => rfl

/-- The search complains of the flow's own entries that name nothing, of each once. -/
theorem expandFlow_errors {repo name : String} {component : ComponentConfig} {entries : List String}
    (scans : ctx.scanned[repo]? = some component)
    (declares : component.flows[name]? = some entries) :
    (ctx.expandFlow ctx.flowFuel 0 {} (repo, name)).errors =
      entries.filterMap (ctx.complaint repo component) := by
  have noted := @Traversal.note_traverse_zero _ _ _ ctx.flowPlan _ _ Expansion.errors
    (fun flow item => (ctx.complaint flow.1 item.1 item.2).toList) (fun _ _ => rfl)
    (fun depth flow found item leads => ?_) (fun flow found item leads => ?_)
    (ctx.namers.length + 1) {} (repo, name) List.not_mem_nil
  · rw [ctx.expandFlow_eq_traverse, ← ctx.namers_length, noted]
    have items : ctx.flowPlan.items (repo, name) = entries.map fun entry => (component, entry) := by
      simp [flowPlan, scans, declares]
    rw [items, List.flatMap_map, List.nil_append, List.filterMap_eq_flatMap_toList]
    apply List.flatMap_congr
    intro entry _
    split
    · rename_i leads
      rw [ctx.complaint_eq_none_of_leads leads]
      rfl
    · rfl
  · simp only [flowPlan] at leads ⊢
    cases means : ctx.meaning flow.1 item.1 item.2 <;> simp
  · simp only [flowPlan, complaint] at leads ⊢
    cases means : ctx.meaning flow.1 item.1 item.2 <;> simp

end ResolveCtx
end Resolver
end Fghj
