import Fghj.References

/-!
# The forms of a template

The reference writes a template as one of two tokens, alone or with a path behind a colon, and a
closing brace. A text is read from the left: a form that means a domain is replaced by it, and any
other is left as written. What else may stand behind a token is none of the forms, and the
reference says nothing of it.
-/

namespace Fghj
namespace Templates

open Std Orchestrator

/-- A template in one of the forms of the reference. -/
structure Form where
  http : Bool
  path : Option (List Char)
  closed : ∀ name ∈ path, '}' ∉ name

namespace Form

variable (form : Form)

/-- What stands between the token and the brace. -/
def inner : List Char := (form.path.map fun name => ':' :: name).getD []

def text : List Char := token form.http ++ form.inner ++ ['}']

def zone : DomainZone := if form.http then .http else .raw

/-- The domain of the service itself, or of the one that the path leads to. -/
def resolved (config : NodeConfig) (rawDomain domain : String) (graph : Graph) : Option String :=
  match form.path with
  | none => some (if form.http then domain else rawDomain)
  | some name => siblingDomain config (String.ofList name) graph form.zone

theorem brace_not_mem_inner : '}' ∉ form.inner := by
  rw [inner]
  cases path : form.path with
  | none => exact List.not_mem_nil
  | some name => simp [form.closed name path]

end Form

section Forms

variable (config : NodeConfig) (rawDomain domain : String) (graph : Graph)

/-- A text, what it is expanded to, and the forms in it that are left as written. -/
inductive Expands : List Char → List Char → List Form → Prop
  | done : Expands [] [] []
  | plain {char : Char} {text out : List Char} {left : List Form}
      (elsewhere : ¬tokenRaw <+: char :: text) (more : Expands text out left) :
      Expands (char :: text) (char :: out) left
  | unclosed {text : List Char} (token : tokenRaw <+: text) (unclosed : '}' ∉ text) :
      Expands text text []
  | replaced {form : Form} {own : String} {rest out : List Char} {left : List Form}
      (means : form.resolved config rawDomain domain graph = some own)
      (more : Expands rest out left) : Expands (form.text ++ rest) (own.toList ++ out) left
  | kept {form : Form} {rest out : List Char} {left : List Form}
      (means : form.resolved config rawDomain domain graph = none)
      (more : Expands rest out left) : Expands (form.text ++ rest) (form.text ++ out) (form :: left)
  | other {found rest out : List Char} {left : List Form} (token : tokenRaw <+: found)
      (closed : '}' ∉ found) (none : ∀ form : Form, ¬form.text <+: found ++ '}' :: rest)
      (given : List Char) (more : Expands rest out left) :
      Expands (found ++ '}' :: rest) (given ++ out) left

variable {config rawDomain domain graph}

theorem Expands.of_absent {value : List Char}
    (absent : ∀ rest, rest <:+ value → ¬tokenRaw <+: rest) :
    Expands config rawDomain domain graph value value [] := by
  induction value with
  | nil => exact .done
  | cons char value ih =>
      exact .plain (absent _ (List.suffix_refl _))
        (ih fun rest suffix => absent rest (suffix.trans (List.suffix_cons char value)))

/-- What stands before the first token is left. -/
theorem Expands.of_first {front found out : List Char} {left : List Form}
    (first : Slices.First tokenRaw front found)
    (more : Expands config rawDomain domain graph found out left) :
    Expands config rawDomain domain graph (front ++ found) (front ++ out) left := by
  induction front with
  | nil => exact more
  | cons char front ih =>
      refine .plain (first.2 (char :: front) (List.suffix_refl _) (List.cons_ne_nil _ _)) ?_
      exact ih ⟨first.1,
        fun earlier suffix => first.2 earlier (suffix.trans (List.suffix_cons char front))⟩

/-- A form at the start of a closed token is all of it. -/
theorem Form.eq_of_prefix {form : Form} {http : Bool} {inner rest : List Char}
    (starts : form.text <+: token http ++ inner ++ '}' :: rest)
    (kind : http = tokenHttp.isPrefixOf (token http ++ inner ++ '}' :: rest))
    (closed : '}' ∉ inner) : form.inner = inner := by
  obtain ⟨behind, same⟩ := starts
  have whole : token form.http ++ (form.inner ++ '}' :: behind) =
      token http ++ (inner ++ '}' :: rest) := by
    simpa [Form.text] using same
  have equal : form.http = http := by
    cases formKind : form.http with
    | true =>
        rw [kind, eq_comm, List.isPrefixOf_iff_prefix, List.append_assoc, ← whole, formKind]
        exact List.prefix_append _ _
    | false =>
        cases http with
        | false => rfl
        | true =>
            -- behind the shorter token a form has a colon or a brace, and no underscore
            rw [formKind] at whole
            simp only [token, Bool.false_eq_true, if_false, if_true, tokenHttp_eq,
              List.append_assoc, List.append_cancel_left_eq] at whole
            cases path : form.path <;> simp [Form.inner, path] at whole
  rw [equal, List.append_cancel_left_eq] at whole
  exact ((Text.append_separator_inj form.brace_not_mem_inner closed).mp whole).1

/-- A cut with a colon or nothing behind its token is a form, and no other cut is. -/
theorem Cut.form_or_other {cut : Cut} {rest : List Char}
    (http : cut.http = tokenHttp.isPrefixOf (cut.text ++ rest)) (closed : '}' ∉ cut.inner) :
    (∃ form : Form, form.text = cut.text ∧ form.path = cut.path ∧ form.http = cut.http) ∨
      cut.path = none ∧ ∀ form : Form, ¬form.text <+: cut.text ++ rest := by
  cases path : cut.path with
  | some name =>
      have shape : cut.inner = ':' :: name := Text.prefix_of_stripPrefix path
      refine .inl ⟨⟨cut.http, some name, fun other same member => ?_⟩, ?_, rfl, rfl⟩
      · obtain rfl := Option.some.inj same
        exact closed (shape ▸ List.mem_cons_of_mem _ member)
      · simp [Form.text, Form.inner, Cut.text, shape]
  | none =>
      by_cases alone : cut.inner = []
      · refine .inl ⟨⟨cut.http, none, by simp⟩, ?_, rfl, rfl⟩
        simp [Form.text, Form.inner, Cut.text, alone]
      · refine .inr ⟨rfl, fun form starts => ?_⟩
        have shape : cut.text ++ rest = token cut.http ++ cut.inner ++ '}' :: rest := by
          simp [Cut.text]
        rw [shape] at starts http
        have same := Form.eq_of_prefix starts http closed
        cases formPath : form.path with
        | none =>
            rw [Form.inner, formPath] at same
            exact alone same.symm
        | some name =>
            rw [Form.inner, formPath] at same
            rw [Cut.path, ← same] at path
            simp [Text.stripPrefix] at path

/-- The forms that are left are cuts with a path that leads nowhere. -/
def Unresolved (config : NodeConfig) (rawDomain domain : String) (graph : Graph)
    (cuts : List Cut) (form : Form) : Prop :=
  form.resolved config rawDomain domain graph = none ∧
    ∃ path, form.path = some path ∧ path ∈ cuts.filterMap Cut.path

/-- What the expander puts out for the cuts of a text is what the reference says. -/
theorem Expands.of_scanned {value tail : List Char} {cuts : List Cut}
    (scanned : Scanned value cuts tail) :
    ∃ left, Expands config rawDomain domain graph value
        (cuts.flatMap (Cut.rendered config rawDomain domain graph) ++ tail) left ∧
      ∀ form ∈ left, Unresolved config rawDomain domain graph cuts form := by
  induction scanned with
  | plain absent => exact ⟨[], .of_absent absent, by simp⟩
  | @unclosed front found first unclosed =>
      exact ⟨[], .of_first first (.unclosed first.1 unclosed), by simp⟩
  | @cut cut rest tail cuts first http closed more ih =>
      obtain ⟨left, expands, unresolved⟩ := ih
      have later : ∀ form ∈ left, Unresolved config rawDomain domain graph (cut :: cuts) form := by
        intro form member
        obtain ⟨means, path, named, listed⟩ := unresolved form member
        exact ⟨means, path, named, List.mem_filterMap.mpr <| by
          obtain ⟨other, inside, same⟩ := List.mem_filterMap.mp listed
          exact ⟨other, List.mem_cons_of_mem _ inside, same⟩⟩
      rw [List.append_assoc, List.flatMap_cons, Cut.rendered]
      simp only [List.append_assoc]
      rcases Cut.form_or_other http closed with ⟨form, text, path, kind⟩ | ⟨path, none⟩
      · have means : form.resolved config rawDomain domain graph =
            cut.resolved config rawDomain domain graph := by
          cases named : cut.path with
          | none => simp [Form.resolved, Cut.resolved, path, kind, named]
          | some name =>
              simp [Form.resolved, Cut.resolved, Form.zone, Cut.zone, path, kind, named]
        cases resolved : cut.resolved config rawDomain domain graph with
        | some own =>
            refine ⟨left, .of_first first ?_, later⟩
            rw [← text]
            exact .replaced (means.trans resolved) expands
        | none =>
            refine ⟨form :: left, .of_first first ?_, fun other member => ?_⟩
            · rw [← text]
              exact .kept (means.trans resolved) expands
            · rcases List.mem_cons.mp member with rfl | inside
              · refine ⟨means.trans resolved, ?_⟩
                cases named : cut.path with
                | none => simp [Cut.resolved, named] at resolved
                | some name => exact ⟨name, path.trans named, by simp [named]⟩
              · exact later other inside
      · refine ⟨left, .of_first first ?_, later⟩
        have shape : cut.text ++ rest = (token cut.http ++ cut.inner) ++ '}' :: rest := by
          simp [Cut.text]
        rw [shape] at none ⊢
        refine .other ((tokenRaw_prefix_token cut.http).trans (List.prefix_append _ _)) ?_ none _
          expands
        exact fun member => (List.mem_append.mp member).elim (brace_not_mem_token cut.http) closed

end Forms

end Templates

/-! ## The environment of a container -/

namespace Orchestrator

/-- The environment of a specification is that of its node. -/
theorem resolveNodeSpec_env {files : HostFiles} {graph : Graph} {config : NodeConfig}
    {spec : ContainerSpec} (resolved : resolveNodeSpec files graph config = .ok spec) :
    ∃ read, config.envFile.mapM (readEnvFile files config) = .ok read ∧
      spec.env = (read.flatten ++ config.environment).map (expandServiceFqdnTemplates config
        (deriveDomain config.id graph.workspaceName .raw)
        (deriveDomain config.id graph.workspaceName .http) graph) := by
  unfold resolveNodeSpec at resolved
  cases image : resolveImage files config with
  | error message => simp [image, Except.bind] at resolved
  | ok tag =>
      cases binds : resolveBinds files graph config with
      | error message => simp [image, binds, Except.bind] at resolved
      | ok mounts =>
          cases read : config.envFile.mapM (readEnvFile files config) with
          | error message =>
              simp [image, binds, resolveEnv, read, Except.bind, Except.map] at resolved
          | ok entries =>
              simp only [image, binds, resolveEnv, read, Except.bind, Except.map,
                Except.ok.injEq] at resolved
              subst resolved
              exact ⟨entries, rfl, rfl⟩

end Orchestrator

namespace Resolver

open Std Orchestrator Templates

/-- An entry as a container of the node is given it, and what the forms are like that are left. -/
def Given (config : NodeConfig) (graph : Graph) (leaves : Form → Prop) (entry given : String) :
    Prop :=
  ∃ left, Expands config (deriveDomain config.id graph.workspaceName .raw)
      (deriveDomain config.id graph.workspaceName .http) graph entry.toList given.toList left ∧
    ∀ form ∈ left, leaves form

/-- The path of a form is about a repo that is not on disk. -/
def NotPulled (ctx : ResolveCtx) (config : NodeConfig) (form : Form) : Prop :=
  ∃ path, form.path = some path ∧ ¬ctx.Pulled config.includes (String.ofList path)

/-- Every text is expanded form by form; and a graph that nothing refuses leaves no form in what a
service declares but those about a repo that is not on disk. What a file of variables says is
expanded like that, and nobody asks whether its paths lead anywhere. -/
theorem templates_expanded :
    (∀ config rawDomain domain graph, ∀ value : String, ∃ left,
      Expands config rawDomain domain graph value.toList
        (expandServiceFqdnTemplates config rawDomain domain graph value).toList left) ∧
      ∀ toLowercase workspaceName scanned facts environments,
        (resolveReferenced toLowercase workspaceName scanned facts environments).blockingWarnings =
            [] →
          ∀ node ∈ (resolveReferenced toLowercase workspaceName scanned facts environments).nodes,
            ∀ config, Configures toLowercase scanned facts environments node config →
              ∀ files spec, resolveNodeSpec files
                  (resolveReferenced toLowercase workspaceName scanned facts environments) config =
                    .ok spec →
                ∃ read fromFiles declared,
                  config.envFile.mapM (readEnvFile files config) = .ok read ∧
                  spec.env = fromFiles ++ declared ∧
                  List.Forall₂ (Given config
                    (resolveReferenced toLowercase workspaceName scanned facts environments)
                    fun _ => True) read.flatten fromFiles ∧
                  List.Forall₂ (Given config
                    (resolveReferenced toLowercase workspaceName scanned facts environments)
                    (NotPulled (declaredCtx toLowercase scanned facts) config))
                    config.environment declared := by
  have expands (config : NodeConfig) (rawDomain domain : String) (graph : Graph) (value : String) :
      ∃ left, Expands config rawDomain domain graph value.toList
          (expandServiceFqdnTemplates config rawDomain domain graph value).toList left ∧
        ∀ form ∈ left, form.resolved config rawDomain domain graph = none ∧
          ∃ path, form.path = some path ∧ String.ofList path ∈ fqdnTemplatePaths value := by
    obtain ⟨cuts, tail, scanned⟩ := exists_scanned value.toList
    obtain ⟨left, expands, unresolved⟩ := Expands.of_scanned scanned
    refine ⟨left, ?_, fun form member => ?_⟩
    · rw [expandServiceFqdnTemplates, String.toList_ofList,
        expandTemplates_eq config rawDomain domain graph scanned value.length scanned.length_le]
      exact expands
    · obtain ⟨means, path, named, listed⟩ := unresolved form member
      refine ⟨means, path, named, ?_⟩
      rw [fqdnTemplatePaths_eq scanned]
      exact List.mem_map_of_mem listed
  constructor
  · intro config rawDomain domain graph value
    obtain ⟨left, expands, -⟩ := expands config rawDomain domain graph value
    exact ⟨left, expands⟩
  · intro toLowercase workspaceName scanned facts environments free node listed config configures
      files spec resolved
    obtain ⟨read, reads, env⟩ := resolveNodeSpec_env resolved
    refine ⟨read, _, _, reads, by rw [env, List.map_append], ?_, ?_⟩
    · refine List.forall₂_map_right_iff.mpr (List.forall₂_same.mpr fun entry _ => ?_)
      obtain ⟨left, expands, -⟩ := expands config _ _ _ entry
      exact ⟨left, expands, fun _ _ => trivial⟩
    · refine List.forall₂_map_right_iff.mpr (List.forall₂_same.mpr fun entry declared => ?_)
      obtain ⟨left, expands, unresolved⟩ := expands config _ _ _ entry
      refine ⟨left, expands, fun form member => ?_⟩
      obtain ⟨means, path, named, listedPath⟩ := unresolved form member
      refine ⟨path, named, fun pulled => ?_⟩
      -- the checker has seen the path, so it would lead to a node
      obtain ⟨target, -, leads⟩ :=
        sibling_known free listed configures declared listedPath pulled form.zone
      rw [Form.resolved, named] at means
      simp only [leads] at means
      cases means

/-! ## A shop with a file of variables -/

/-- The web server of the shop with a file of variables beside what it declares. -/
def shopWeb : NodeConfig where
  id := "web.shop"
  kind := .service
  image := some "nginx"
  localPath := some "shop"
  environment := ["DB=$\x7bFGHJ_SERVICE_FQDN:db\x7d"]
  envFile := [".env"]

/-- Its file names a service that there is none of. -/
def variableFiles : HostFiles where
  workspace := "/w"
  certsDir := "/certs"
  readFile _ := .ok "CACHE=$\x7bFGHJ_SERVICE_FQDN:cache\x7d\n"

theorem shopWeb_configures : ∃ node ∈
    (resolveReferenced id "w" shopWithDatabase ∅ databaseUrl).nodes,
      Configures id shopWithDatabase ∅ databaseUrl node shopWeb := by
  obtain ⟨node, listed, named, folder, included, declared⟩ :
      ∃ node ∈ (resolveReferenced id "w" shopWithDatabase ∅ databaseUrl).nodes,
        node.id = "web.shop" ∧ node.localPath = some "shop" ∧
          (declaredCtx id shopWithDatabase ∅).includesOf node = ∅ ∧
          ResolveCtx.environmentOf (environmentTable databaseUrl shopWithDatabase) node =
            ["DB=$\x7bFGHJ_SERVICE_FQDN:db\x7d"] := by
    decide
  exact ⟨node, listed, named.symm, folder.symm, included.symm, declared.symm⟩

/-- The shop, which nothing refuses. -/
abbrev shopGraph : Graph := resolveReferenced id "w" shopWithDatabase ∅ databaseUrl

theorem shopWeb_env : ∃ spec, resolveNodeSpec variableFiles shopGraph shopWeb = .ok spec ∧
    spec.env = ["CACHE=$\x7bFGHJ_SERVICE_FQDN:cache\x7d", "DB=db.shop.w.fghj.raw.internal"] := by
  have resolved : (resolveNodeSpec variableFiles shopGraph shopWeb).map ContainerSpec.env =
      .ok ["CACHE=$\x7bFGHJ_SERVICE_FQDN:cache\x7d", "DB=db.shop.w.fghj.raw.internal"] := by
    decide
  cases outcome : resolveNodeSpec variableFiles shopGraph shopWeb with
  | error message =>
      rw [outcome] at resolved
      cases resolved
  | ok spec =>
      rw [outcome] at resolved
      exact ⟨spec, rfl, Except.ok.inj resolved⟩

/-- Its web server is given the domain of the database, and the name in the file as written. -/
theorem templates_expanded_shop :
    ∃ spec, resolveNodeSpec variableFiles shopGraph shopWeb = .ok spec ∧
      ∃ read fromFiles declared,
        shopWeb.envFile.mapM (readEnvFile variableFiles shopWeb) = .ok read ∧
        spec.env = fromFiles ++ declared ∧
        List.Forall₂ (Given shopWeb shopGraph fun _ => True) read.flatten fromFiles ∧
        List.Forall₂ (Given shopWeb shopGraph
          (NotPulled (declaredCtx id shopWithDatabase ∅) shopWeb)) shopWeb.environment
          declared := by
  obtain ⟨node, listed, configures⟩ := shopWeb_configures
  obtain ⟨spec, resolved, -⟩ := shopWeb_env
  exact ⟨spec, resolved, templates_expanded.2 id "w" shopWithDatabase ∅ databaseUrl
    (by decide) node listed shopWeb configures variableFiles spec resolved⟩

/-- A name that merely starts like the token has none of the forms in it. -/
theorem no_form_in_port (form : Form) :
    ¬form.text <:+: "$\x7bFGHJ_SERVICE_FQDN_PORT\x7d".toList := by
  rintro ⟨front, back, same⟩
  have later : ∀ rest ∈ "$\x7bFGHJ_SERVICE_FQDN_PORT\x7d".toList.tails, tokenRaw <+: rest →
      rest = "$\x7bFGHJ_SERVICE_FQDN_PORT\x7d".toList := by
    decide
  have starts : tokenRaw <+: form.text ++ back :=
    (tokenRaw_prefix_token form.http).trans ⟨form.inner ++ ['}'] ++ back, by simp [Form.text]⟩
  have whole := later (form.text ++ back) ((List.mem_tails _ _).mpr ⟨front, by
    rw [← List.append_assoc, same]⟩) starts
  have inner : form.inner = "_PORT".toList :=
    @Form.eq_of_prefix form false _ [] ⟨back, whole⟩ (by decide) (by decide)
  rw [Form.inner] at inner
  cases path : form.path <;> simp [path] at inner

/-- A name that merely starts like the token is replaced, a form inside another's path is not, and
what a file of variables names is not asked for when the graph is resolved. -/
theorem templates_not_exact :
    ((∀ form : Form, ¬form.text <:+: "$\x7bFGHJ_SERVICE_FQDN_PORT\x7d".toList) ∧
      expandServiceFqdnTemplates shopWeb "web.shop.w.fghj.raw.internal" "web.shop.w.fghj.internal"
        shopGraph "$\x7bFGHJ_SERVICE_FQDN_PORT\x7d" = "web.shop.w.fghj.raw.internal") ∧
    (∃ form : Form,
      form.text <:+: "$\x7bFGHJ_SERVICE_FQDN:$\x7bFGHJ_SERVICE_FQDN:db\x7d".toList ∧
      form.resolved shopWeb "web.shop.w.fghj.raw.internal" "web.shop.w.fghj.internal" shopGraph =
        some "db.shop.w.fghj.raw.internal" ∧
      expandServiceFqdnTemplates shopWeb "web.shop.w.fghj.raw.internal" "web.shop.w.fghj.internal"
          shopGraph "$\x7bFGHJ_SERVICE_FQDN:$\x7bFGHJ_SERVICE_FQDN:db\x7d" =
        "$\x7bFGHJ_SERVICE_FQDN:$\x7bFGHJ_SERVICE_FQDN:db\x7d") ∧
    shopGraph.blockingWarnings = [] ∧
    (∃ node ∈ shopGraph.nodes, Configures id shopWithDatabase ∅ databaseUrl node shopWeb) ∧
    (declaredCtx id shopWithDatabase ∅).Pulled shopWeb.includes "cache" ∧
    ∃ spec, resolveNodeSpec variableFiles shopGraph shopWeb = .ok spec ∧
      spec.env = ["CACHE=$\x7bFGHJ_SERVICE_FQDN:cache\x7d", "DB=db.shop.w.fghj.raw.internal"] := by
  refine ⟨⟨no_form_in_port, by decide⟩, ⟨⟨false, some "db".toList, by simp⟩, ?_, ?_, ?_⟩,
    by decide, shopWeb_configures, ?_, shopWeb_env⟩
  · exact List.IsSuffix.isInfix ⟨"$\x7bFGHJ_SERVICE_FQDN:".toList, by decide⟩
  · decide
  · decide
  · unfold ResolveCtx.Pulled
    decide

end Resolver
end Fghj
