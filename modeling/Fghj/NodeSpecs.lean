import Fghj.PortKeys
import Fghj.Resolver
import Fghj.StartNode

/-!
# What a node resolves to

A node with everything its container is made from, and its specification: names, image, ports,
mounts and environment, as `resolve_node_spec` reads them off the node, the graph and the host.
-/

namespace Fghj

open Std (ExtTreeMap)

/-! ## The node -/

/-- The clone a git build context builds from, and where it is. -/
structure SourceConfig extends BuildSource where
  url : String
  path : String
  downloaded : Bool
  deriving DecidableEq

structure NodeBuildSecret where
  id : String
  file : String
  deriving DecidableEq

/-- How a node's image is built. -/
structure NodeBuild where
  context : String := "."
  dockerfile : String := "Dockerfile"
  dockerfileInline : Option String := none
  source : Option SourceConfig := none
  args : OrderedMap String String := ∅
  target : Option String := none
  ssh : Bool := false
  secrets : List NodeBuildSecret := []
  deriving DecidableEq

/-- In seconds, which become nanoseconds at Docker. -/
structure Healthcheck where
  test : List String
  interval : Option UInt64 := none
  timeout : Option UInt64 := none
  startPeriod : Option UInt64 := none
  retries : Option UInt64 := none
  deriving DecidableEq

/-- A node with everything its container is made from. -/
structure NodeConfig where
  id : String
  kind : NodeKind
  image : Option String := none
  branch : Option String := none
  localPath : Option String := none
  dirty : Bool := false
  head : Option String := none
  /-- The repos its repo includes, by alias. -/
  includes : OrderedMap String String := ∅
  build : Option NodeBuild := none
  ports : OrderedMap String PortConfig := ∅
  environment : List String := []
  command : List String := []
  volumes : List VolumeMount := []
  additionalHosts : List String := []
  wildcardHosts : List String := []
  envFile : List String := []
  restart : String := "no"
  stopSignal : Option String := none
  stopGracePeriod : UInt64 := 10
  user : Option String := none
  workingDir : Option String := none
  labels : OrderedMap String String := ∅
  capAdd : List String := []
  capDrop : List String := []
  privileged : Bool := false
  extraHosts : List String := []
  healthcheck : Option Healthcheck := none
  platform : Option String := none
  debug : Option UInt16 := none

/-- What the graph says of it. -/
def NodeConfig.node (config : NodeConfig) : Node where
  id := config.id
  kind := config.kind
  localPath := config.localPath
  branch := config.branch
  head := config.head
  dirty := config.dirty
  build := config.build.map fun build => build.source.map SourceConfig.toBuildSource
  ports := config.ports
  volumes := config.volumes
  additionalHosts := config.additionalHosts
  wildcardHosts := config.wildcardHosts
  healthcheck := config.healthcheck.isSome

/-- What the files resolve to, with what only the container is given. -/
structure ContainerSpec extends NodeSpec where
  aliases : List String
  image : String
  binds : List String
  env : List String
  deriving DecidableEq

namespace Orchestrator

/-! ## Templates -/

/-- A text cut before the first place where a pattern stands. -/
def findPattern (pattern : List Char) : List Char → Option (List Char × List Char)
  | [] => none
  | char :: rest =>
      if pattern.isPrefixOf (char :: rest) then some ([], char :: rest)
      else (findPattern pattern rest).map fun (front, found) => (char :: front, found)

def tokenHttp : List Char := "$\x7bFGHJ_SERVICE_FQDN_HTTP".toList

def tokenRaw : List Char := "$\x7bFGHJ_SERVICE_FQDN".toList

/-- The id of the service a reference names. -/
def referenceTargetId (localPath : String) (includes : OrderedMap String String)
    (path : String) : Option String :=
  match Target.parse path with
  | .bare name => some (Resolver.nodeId name localPath)
  | .qualified owner name => (includes[owner]?).map fun target => Resolver.nodeId name target

/-- The domain of a service of the same repo, or of one that it includes. -/
def siblingDomain (config : NodeConfig) (path : String) (graph : Graph) (zone : DomainZone) :
    Option String :=
  config.localPath.bind fun localPath =>
    (referenceTargetId localPath config.includes path).bind fun id =>
      (graph.nodes.find? fun node => node.id == id).map fun sibling =>
        deriveDomain sibling.id graph.workspaceName zone

section Templates

variable (config : NodeConfig) (rawDomain domain : String) (graph : Graph)

/-- Every template that means a domain, replaced by it; one that means none is left. -/
def expandTemplates : Nat → List Char → List Char
  | 0, value => value
  | fuel + 1, value =>
      match findPattern tokenRaw value with
      | none => value
      | some (front, found) =>
          let http := tokenHttp.isPrefixOf found
          let token := if http then tokenHttp else tokenRaw
          match Text.splitOnce '}' found with
          | none => front ++ found
          | some (template, rest) =>
              let resolved :=
                match Text.stripPrefix [':'] (template.drop token.length) with
                | none => some (if http then domain else rawDomain)
                | some name =>
                    siblingDomain config (String.ofList name) graph (if http then .http else .raw)
              front ++ (resolved.map String.toList).getD (template ++ ['}']) ++
                expandTemplates fuel rest

/-- Every round consumes a template, so a text's length is rounds enough. -/
def expandServiceFqdnTemplates (value : String) : String :=
  String.ofList (expandTemplates config rawDomain domain graph value.length value.toList)

end Templates

/-! ## Files -/

/-- What resolving a node reads of the host. -/
structure HostFiles where
  workspace : String
  /-- The home of the workspace's owner. -/
  home : Option String := none
  certsDir : String
  /-- A path with its symlinks resolved, if it is there. -/
  canonicalize : String → Option String := fun _ => none
  readFile : String → Except String String := fun _ => .error "No such file or directory"

/-- A path below another, unless it is absolute. -/
def joinPath (root path : String) : String :=
  if path.toList.head? = some '/' ∨ root = "" then path
  else if root.toList.getLast? = some '/' then root ++ path
  else root ++ "/" ++ path

/-- A path as a file writes it: below the owner's home, below the repo, or absolute. -/
def hostPath (raw repoRoot : String) (home : Option String) : Except String String :=
  let below :=
    match Text.stripPrefix ['~'] raw.toList with
    | some [] => some []
    | some rest => Text.stripPrefix ['/'] rest
    | none => none
  match below, home with
  | none, _ => .ok (joinPath repoRoot raw)
  | some _, none =>
      .error (raw ++ " is under a home directory, but this workspace's owner has none")
  | some rest, some home => .ok (joinPath home (String.ofList rest))

/-- One line of an environment file. -/
def parseEnvLine (line : List Char) : Option String :=
  (Text.splitOnce '=' line).map fun (key, value) =>
    let value := Text.trim value
    let quoted (quote : Char) := value.head? = some quote ∧ value.getLast? = some quote
    let value :=
      if 2 ≤ value.length ∧ (quoted '"' ∨ quoted '\'') then (value.drop 1).dropLast else value
    String.ofList (Text.trim key ++ '=' :: value)

def parseEnvFile (contents : String) : List String :=
  (((Text.lines contents.toList).map Text.trim).filter fun line =>
    !line.isEmpty && line.head? != some '#').filterMap parseEnvLine

example : parseEnvFile "# a comment\n\nFOO=bar\nBAZ=\"quoted value\"\nMISMATCHED=\"oops'\n" =
    ["FOO=bar", "BAZ=quoted value", "MISMATCHED=\"oops'"] := by
  decide

/-! ## The specification -/

section Resolve

variable (files : HostFiles) (graph : Graph) (config : NodeConfig)

/-- The root of the repo that declares the node. -/
def repoRoot : Option String := config.localPath.map (joinPath files.workspace)

/-- The tag of the image a node builds. -/
def buildTag (build : NodeBuild) : String :=
  let branch :=
    match build.source with
    | some source => source.reference.getD "default"
    | none => config.branch.getD "local"
  "fghj/" ++ sanitizeLabel config.id ++ ":" ++ sanitizeLabel branch

def resolveImage : Except String String :=
  match config.build, config.image with
  | some build, _ =>
      if (repoRoot files config).isSome then .ok (buildTag config build)
      else .error ("node " ++ config.id ++ " has a build but no local_path to build from")
  | none, some image => .ok image
  | none, none => .error ("node " ++ config.id ++ " has neither a build nor an image")

/-- The names the container has on its network. -/
def resolveAliases (rawDomain : String) : List String :=
  rawDomain :: (config.ports.toList.filterMap fun entry => entry.2.name).map
    (· ++ "." ++ rawDomain)

/-- What is mounted at one place. -/
def resolveBind : VolumeMount → Except String String
  | .bind host container readOnly =>
      match repoRoot files config with
      | none => .error "node with volumes has a resolved checkout root"
      | some root =>
          (hostPath host root files.home).map fun path =>
            (files.canonicalize path).getD path ++ ":" ++ container ++
              if readOnly then ":ro" else ""
  | .named name container readOnly shared =>
      let owner := if shared then none else some config.id
      .ok (deriveVolumeName name owner graph.workspaceName ++ ":" ++ container ++
        if readOnly then ":ro" else "")

/-- fghj's trust files first: an author's own mount at the same path wins. -/
def resolveBinds : Except String (List String) :=
  (config.volumes.mapM (resolveBind files graph config)).map fun binds =>
    (files.certsDir ++ ":/etc/fghj/certs:ro") :: binds

def readEnvFile (path : String) : Except String (List String) :=
  match repoRoot files config with
  | none => .error "node with env_file has a resolved checkout root"
  | some root =>
      (hostPath path root files.home).bind fun path =>
        match files.readFile path with
        | .error _ => .error ("failed to read env_file " ++ path)
        | .ok contents => .ok (parseEnvFile contents)

/-- The files first and the declared variables on top; Docker keeps the last value. -/
def resolveEnv (rawDomain domain : String) : Except String (List String) :=
  (config.envFile.mapM (readEnvFile files config)).map fun read =>
    (read.flatten ++ config.environment).map
      (expandServiceFqdnTemplates config rawDomain domain graph)

/-- What a node's files resolve to. -/
def resolveNodeSpec : Except String ContainerSpec :=
  let domain := deriveDomain config.id graph.workspaceName .http
  let rawDomain := deriveDomain config.id graph.workspaceName .raw
  (resolveImage files config).bind fun image =>
    (resolveBinds files graph config).bind fun binds =>
      (resolveEnv files graph config rawDomain domain).map fun env =>
        { containerName := containerName graph.workspaceName config.id
          domain
          rawDomain
          portList := PortKeys.portList config.ports config.debug
          aliases := resolveAliases config rawDomain
          image
          binds
          env }

variable {files graph config}

/-- A specification has the names of its node, and its ports. -/
theorem resolveNodeSpec_ok {spec : ContainerSpec}
    (resolved : resolveNodeSpec files graph config = .ok spec) :
    spec.containerName = containerName graph.workspaceName config.id ∧
      spec.domain = deriveDomain config.id graph.workspaceName .http ∧
      spec.rawDomain = deriveDomain config.id graph.workspaceName .raw ∧
      spec.portList = PortKeys.portList config.ports config.debug ∧
      spec.aliases = resolveAliases config spec.rawDomain := by
  unfold resolveNodeSpec at resolved
  cases image : resolveImage files config with
  | error message => simp [image, Except.bind] at resolved
  | ok tag =>
      cases binds : resolveBinds files graph config with
      | error message => simp [image, binds, Except.bind] at resolved
      | ok mounts =>
          cases env : resolveEnv files graph config
              (deriveDomain config.id graph.workspaceName .raw)
              (deriveDomain config.id graph.workspaceName .http) with
          | error message => simp [image, binds, env, Except.bind, Except.map] at resolved
          | ok values =>
              simp only [image, binds, env, Except.bind, Except.map, Except.ok.injEq] at resolved
              subst resolved
              exact ⟨rfl, rfl, rfl, rfl, rfl⟩

end Resolve

end Orchestrator
end Fghj
