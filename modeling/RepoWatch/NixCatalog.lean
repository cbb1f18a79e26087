import RepoWatch.Lib.Lines
import RepoWatch.Lib.Ranking
import RepoWatch.Parsers
/-!
# NixCatalog — packages from the Nix command line

The source is resolved once, every selected subtree is evaluated, and the outputs of all attributes are the packages.  The
timeout of a command and the limit on the paths only raise, so they do not matter to two fetches that succeed
(`fetchPackages_agree`).
-/
namespace RepoWatch
namespace NixCatalog

open Lib Lib.Utf8

/-! ## Commands -/

/-- The options that `run_nix` adds. -/
def safeOptions : List Str :=
  ["--option", "allow-import-from-derivation", "false", "--option", "max-jobs", "0", "--option", "builders", "",
    "--option", "accept-flake-config", "false"].map String.toList

/-- The marks of an evaluation that nix-env has given up in part. -/
def failureMarkers : List Bytes :=
  ["error:", "failed to evaluate", "errors were encountered"].map fun marker => utf8Bytes marker.toList

section
variable (up : Upstream) (host : Host)

/-- `run_nix`. -/
def runNix (arguments : List Str) (timeout : Nat) : Except FetchError Bytes :=
  let command := arguments ++ safeOptions
  if ¬ host.completes command timeout = true then .error .library
  else
    let result := up.evaluate command
    let diagnostic := decodeReplace (result.stderr.take 8192)
    if result.returncode ≠ 0 then
      raiseValue ("Nix command failed (".toList ++ (toString result.returncode).toList ++ "): ".toList ++ diagnostic)
    else if (failureMarkers.any fun marker => (find marker result.stderr).isSome) = true then
      raiseValue ("Nix evaluation was incomplete: ".toList ++ diagnostic)
    else .ok result.stdout

end

/-! ## The catalog -/

/-- `sorted(fields.items())`. -/
def sortedItems {α : Type} (fields : List (Str × α)) : List (Str × α) := Ranking.ranked Prod.fst (Dict.ofPairs fields).rows

section
variable (lib : Library)

/-- The package of one output. -/
def outputRef (attr : Str) (fields : Dict Str NixJson) (output : Str) (path : NixJson) : Except FetchError PackageRef :=
  let hash :=
    match path with
    | .string p => storeHash p
    | _ => none
  match hash with
  | none => raiseValue ("Nix output path is unavailable or invalid for ".toList ++ attr ++ '.' :: output)
  | some hash =>
    let version :=
      match fields.lookup "name".toList with
      | none => attr
      | some (.string name) => name
      | some value => lib.format value
    .ok { name := attr ++ ':' :: output, version := version ++ '@' :: hash, filename := some (hash ++ ".narinfo".toList) }

/-- One round of the loop over the outputs. -/
def addOutput (maximum : Nat) (attr : Str) (fields : Dict Str NixJson) (result : List PackageRef) (output : Str × NixJson) :
    Except FetchError (List PackageRef) := do
  let ref ← outputRef lib attr fields output.1 output.2
  let result := result ++ [ref]
  if maximum < result.length then raiseValue ("Nix catalog exceeds nix_max_paths=".toList ++ (toString maximum).toList)
  else .ok result

/-- The outputs of a package, once its fields are checked. -/
def packageOutputs (system attr : Str) (package : NixJson) : Except FetchError (Dict Str NixJson × List (Str × NixJson)) :=
  match package with
  | .object fields =>
    let fields := Dict.ofPairs fields
    match fields.lookup "outputs".toList with
    | some (.object outputs) =>
      match fields.lookup "system".toList with
      | some (.string s) =>
        if s = system then .ok (fields, sortedItems outputs)
        else raiseValue ("Nix catalog returned the wrong system for ".toList ++ attr)
      | _ => raiseValue ("Nix catalog returned the wrong system for ".toList ++ attr)
    | _ => raiseValue ("Nix catalog has invalid outputs for ".toList ++ attr)
  | _ => raiseValue ("Nix catalog has invalid outputs for ".toList ++ attr)

/-- One round of the loop over the attributes. -/
def addPackage (system : Str) (maximum : Nat) (result : List PackageRef) (entry : Str × NixJson) :
    Except FetchError (List PackageRef) := do
  let (fields, outputs) ← packageOutputs system entry.1 entry.2
  outputs.foldlM (addOutput lib maximum entry.1 fields) result

/-- `parse_catalog`. -/
def parseCatalog (data : Bytes) (system : Str) (maximum : Nat) : Except FetchError (List PackageRef) := do
  let catalog ← decoded (lib.loadsJson data)
  match catalog with
  | .object fields => (sortedItems fields).foldlM (addPackage lib system maximum) []
  | _ => raiseValue "Nix catalog must be an attribute-to-package object".toList

/-! ## The parser -/

/-- The name of an entry of a subtree in the whole catalog. -/
def qualified (attr name : Str) : Str :=
  if startsWith name attr then name else attr ++ (if name ≠ [] then '.' :: name else [])

def resolveCommand (source : Str) : List Str :=
  ["nix-instantiate", "--eval", "--json", "--expr", "{ url }: builtins.fetchTarball url", "--argstr", "url"].map String.toList ++
    source :: ["--option", "tarball-ttl", "0"].map String.toList

def queryCommand (source system : Str) : List Str :=
  ["nix-env", "--query", "--available", "--json", "--out-path", "--file"].map String.toList ++
    source :: ["--argstr", "system"].map String.toList ++
    system :: "--system-filter".toList :: system :: ["--option", "tarball-ttl", "0"].map String.toList

/-- What the evaluation of the source says it is: a store path. -/
def resolvedSource (resolved : Bytes) : Except FetchError Str := do
  let source ← decoded (lib.loadsJson resolved)
  match source with
  | .string s =>
    if (storeHash s).isNone then raiseValue "Nix source resolution did not return a store path".toList else .ok s
  | _ => raiseValue "Nix source resolution did not return a store path".toList

/-- The entries of a subtree, among those of the subtrees before it. -/
def addSubtree (attr : Str) (catalog : Dict Str NixJson) (data : Bytes) : Except FetchError (Dict Str NixJson) := do
  let part ← decoded (lib.loadsJson data)
  match part with
  | .object fields =>
    .ok ((Dict.ofPairs fields).rows.foldl (fun catalog entry => catalog.set (qualified attr entry.1) entry.2) catalog)
  | _ => .error .library

variable (up : Upstream) (host : Host)

/-- The evaluated catalog: of the selected attributes one after another, or of everything. -/
def evaluated (command : List Str) (attributes : List Str) (timeout : Nat) : Except FetchError Bytes :=
  if attributes = [] then runNix up host command timeout
  else do
    let catalog ← attributes.foldlM (fun catalog attr => do
      let data ← runNix up host (command ++ ["--attr".toList, attr]) timeout
      addSubtree lib attr catalog data) Table.empty
    return lib.dumpsJson (.object catalog.rows)

/-- `NixParser.index_url`. -/
def indexUrl (repo : RepoFields) : Option Str := repo.nixSource

/-- `NixParser.fetch_packages`. -/
def fetchPackages (repo : RepoFields) : Except FetchError (List PackageRef) := do
  let resolved ← runNix up host (resolveCommand (repo.nixSource.getD [])) repo.nixTimeout
  let source ← resolvedSource lib resolved
  let data ← evaluated lib up host (queryCommand source repo.arch) repo.nixAttributes repo.nixTimeout
  parseCatalog lib data repo.arch repo.nixMaxPaths

end

/-! ## Two evaluations -/

section
variable {lib : Library} {up : Upstream} {host host' : Host}

/-- **A command that ends in time** has one output. -/
theorem runNix_agree (arguments : List Str) (timeout timeout' : Nat) :
    Agree (runNix up host arguments timeout) (runNix up host' arguments timeout') :=
  Agree.guard (.refl _)

theorem addOutput_agree (maximum maximum' : Nat) (attr : Str) (fields : Dict Str NixJson) (result : List PackageRef)
    (output : Str × NixJson) :
    Agree (addOutput lib maximum attr fields result output) (addOutput lib maximum' attr fields result output) :=
  (Agree.refl _).bind fun _ => Agree.guard (.refl _)

theorem parseCatalog_agree (data : Bytes) (system : Str) (maximum maximum' : Nat) :
    Agree (parseCatalog lib data system maximum) (parseCatalog lib data system maximum') := by
  refine (Agree.refl _).bind fun catalog => ?_
  split
  · refine Agree.foldlM (fun result entry => (Agree.refl _).bind fun outputs => ?_) _ _
    exact Agree.foldlM (addOutput_agree maximum maximum' entry.1 outputs.1) _ _
  · exact .refl _

theorem evaluated_agree (command attributes : List Str) (timeout timeout' : Nat) :
    Agree (evaluated lib up host command attributes timeout) (evaluated lib up host' command attributes timeout') := by
  unfold evaluated
  split
  · exact runNix_agree command timeout timeout'
  · refine Agree.bind (Agree.foldlM (fun catalog attr => ?_) _ _) fun _ => .refl _
    exact (runNix_agree _ timeout timeout').bind fun _ => .refl _

/-- **Two fetches of one source** give the same packages, whatever the timeouts and the limits. -/
theorem fetchPackages_agree {a b : RepoFields} (hsource : a.nixSource = b.nixSource) (harch : a.arch = b.arch)
    (hattributes : a.nixAttributes = b.nixAttributes) : Agree (fetchPackages lib up host a) (fetchPackages lib up host' b) := by
  unfold fetchPackages
  rw [hsource, harch, hattributes]
  refine (runNix_agree _ _ _).bind fun resolved => (Agree.refl _).bind fun source => ?_
  exact (evaluated_agree _ _ _ _).bind fun data => parseCatalog_agree data _ _ _

end

end NixCatalog
end RepoWatch
